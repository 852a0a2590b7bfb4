import Mathlib.Data.List.Perm.Basic
import Mathlib.Data.List.Range
import Mathlib.Data.List.Sort
import Mathlib.Order.Defs.LinearOrder

/-!
# Pages of an ordering that is not total

Rows are ordered by a key, the greatest first, and rows with one key come
in any order, another one at each query. A page is a stretch of such an
ordering. Where no two rows with one key stand on different sides of a
page boundary, a page has the same rows whatever the orderings, and the
pages together have each row once.
-/

namespace AigisZero

variable {α κ : Type*} [LinearOrder κ]

/-- **An ordering of rows by a key**, the greatest first. -/
structure SortedBy (key : α → κ) (rows : List α) where
  list : List α
  perm : list.Perm rows
  sorted : list.Pairwise fun a b => key b ≤ key a

namespace Paging

/-- The rows from an offset on, up to a limit. -/
def page (l : List α) (offset limit : ℕ) : List α := (l.drop offset).take limit

/-- How many rows have a greater key. -/
def rank (key : α → κ) (rows : List α) (a : α) : ℕ := rows.countP fun b => key a < key b

/-- How many rows have a key at least as great. -/
def rankEnd (key : α → κ) (rows : List α) (a : α) : ℕ := rows.countP fun b => key a ≤ key b

/-- **No tie across a boundary**: no rows with one key stand on both sides
of it. -/
def CleanAt (key : α → κ) (rows : List α) (b : ℕ) : Prop :=
  ∀ a ∈ rows, ¬ (rank key rows a < b ∧ b < rankEnd key rows a)

variable {key : α → κ} {rows l r : List α} {a : α} {b i L : ℕ}

theorem rank_perm (h : l.Perm rows) (a : α) : rank key l a = rank key rows a := h.countP_eq _

theorem rankEnd_perm (h : l.Perm rows) (a : α) : rankEnd key l a = rankEnd key rows a :=
  h.countP_eq _

/-- A row stands behind those with greater keys, -/
theorem rank_le (h : (l ++ a :: r).Pairwise fun a b => key b ≤ key a) :
    rank key (l ++ a :: r) a ≤ l.length := by
  have hr : r.countP (fun b => key a < key b) = 0 := by
    rw [List.countP_eq_zero]
    intro b hb
    have hle := (List.pairwise_cons.1 (List.pairwise_append.1 h).2.1).1 b hb
    simpa using hle
  have hl : l.countP (fun b => key a < key b) ≤ l.length := List.countP_le_length
  unfold rank
  rw [List.countP_append, List.countP_cons, hr]
  simpa using hl

/-- and before those with smaller ones. -/
theorem lt_rankEnd (h : (l ++ a :: r).Pairwise fun a b => key b ≤ key a) :
    l.length < rankEnd key (l ++ a :: r) a := by
  have hl : l.countP (fun b => key a ≤ key b) = l.length := by
    rw [List.countP_eq_length]
    intro b hb
    have hle := (List.pairwise_append.1 h).2.2 b hb a List.mem_cons_self
    simpa using hle
  unfold rankEnd
  rw [List.countP_append, List.countP_cons, hl]
  simp

/-- Rows with one key take as many places as there are. -/
theorem rankEnd_eq (key : α → κ) (rows : List α) (a : α) :
    rankEnd key rows a = rank key rows a + (rows.map key).count (key a) := by
  unfold rankEnd rank
  induction rows with
  | nil => rfl
  | cons b rows ih =>
    rw [List.countP_cons, List.countP_cons, List.map_cons, List.count_cons, ih]
    rcases lt_trichotomy (key a) (key b) with h | h | h
    · simp [h, h.le, h.ne']
      omega
    · simp [h]
      omega
    · simp [h.not_ge, h.not_gt, h.ne]

/-- **Where no two rows have one key, every boundary is clean.** -/
theorem cleanAt_of_nodup (h : (rows.map key).Nodup) (b : ℕ) : CleanAt key rows b := by
  rintro a - ⟨hrank, hend⟩
  have hcount := List.nodup_iff_count_le_one.1 h (key a)
  rw [rankEnd_eq] at hend
  omega

/-- The rows before a place have smaller ranks. -/
theorem rank_lt_of_mem_take (s : SortedBy key rows) (h : a ∈ s.list.take b) :
    rank key rows a < b := by
  obtain ⟨l, r, htake⟩ := List.append_of_mem h
  have hlength : l.length < b := by
    have hle := List.length_take_le b s.list
    rw [htake, List.length_append, List.length_cons] at hle
    omega
  have hsplit : s.list = l ++ a :: (r ++ s.list.drop b) := by
    conv_lhs => rw [← List.take_append_drop b s.list, htake]
    simp
  have hsorted := s.sorted
  have hperm := s.perm
  rw [hsplit] at hsorted hperm
  have hle := rank_le hsorted
  rw [rank_perm hperm] at hle
  omega

/-- **The rows from a clean boundary on have ranks from there on.** -/
theorem le_rank_of_mem_drop (s : SortedBy key rows) (hclean : CleanAt key rows b)
    (h : a ∈ s.list.drop b) : b ≤ rank key rows a := by
  obtain ⟨l, r, hdrop⟩ := List.append_of_mem h
  have hsplit : s.list = (s.list.take b ++ l) ++ a :: r := by
    conv_lhs => rw [← List.take_append_drop b s.list, hdrop]
    simp
  have hlength : b ≤ (s.list.take b ++ l).length := by
    have hpos : 0 < (s.list.drop b).length := List.length_pos_of_mem h
    rw [List.length_drop] at hpos
    rw [List.length_append, List.length_take]
    omega
  have hsorted := s.sorted
  have hperm := s.perm
  rw [hsplit] at hsorted hperm
  have hlt := lt_rankEnd hsorted
  rw [rankEnd_perm hperm] at hlt
  by_contra hrank
  exact hclean a (s.perm.mem_iff.1 (List.mem_of_mem_drop h)) ⟨by omega, by omega⟩

/-- **A page between clean boundaries has the rows whose ranks fall into
it**, whatever the ordering. -/
theorem page_perm (hL : 0 < L) (s : SortedBy key rows) (hstart : CleanAt key rows (i * L))
    (hend : CleanAt key rows ((i + 1) * L)) :
    (page s.list (i * L) L).Perm (rows.filter fun a => rank key rows a / L = i) := by
  have hrank : ∀ a, rank key rows a / L = i ↔
      i * L ≤ rank key rows a ∧ rank key rows a < (i + 1) * L := by
    intro a
    rw [← Nat.le_div_iff_mul_le hL, ← Nat.div_lt_iff_lt_mul hL]
    omega
  have hbound : (i + 1) * L = i * L + L := Nat.succ_mul i L
  have hbefore : (s.list.take (i * L)).filter (fun a => rank key rows a / L = i) = [] := by
    rw [List.filter_eq_nil_iff]
    intro a ha
    have hlt := rank_lt_of_mem_take s ha
    rw [decide_eq_true_eq, hrank]
    omega
  have hpage : (page s.list (i * L) L).filter (fun a => rank key rows a / L = i) =
      page s.list (i * L) L := by
    rw [List.filter_eq_self]
    intro a ha
    have hle := le_rank_of_mem_drop s hstart (List.mem_of_mem_take ha)
    have htake : a ∈ s.list.take ((i + 1) * L) := by
      rw [hbound, List.take_add]
      exact List.mem_append_right _ ha
    have hlt := rank_lt_of_mem_take s htake
    rw [decide_eq_true_eq, hrank]
    exact ⟨hle, hlt⟩
  have hbehind : (s.list.drop ((i + 1) * L)).filter (fun a => rank key rows a / L = i) = [] := by
    rw [List.filter_eq_nil_iff]
    intro a ha
    have hle := le_rank_of_mem_drop s hend ha
    rw [decide_eq_true_eq, hrank]
    omega
  have hsplit : s.list = s.list.take (i * L) ++ (page s.list (i * L) L ++
      s.list.drop ((i + 1) * L)) := by
    unfold page
    rw [hbound, ← List.drop_drop, List.take_append_drop, List.take_append_drop]
  have hfilter : s.list.filter (fun a => rank key rows a / L = i) = page s.list (i * L) L := by
    conv_lhs => rw [hsplit]
    rw [List.filter_append, List.filter_append, hbefore, hpage, hbehind, List.append_nil,
      List.nil_append]
  rw [← hfilter]
  exact s.perm.filter _

/-- The rows of each number in turn. -/
theorem flatMap_filter_perm (f : α → ℕ) (n : ℕ) :
    ((List.range n).flatMap fun i => rows.filter fun a => f a = i).Perm
      (rows.filter fun a => f a < n) := by
  induction n with
  | zero => simp
  | succ n ih =>
    have hsplit := List.filter_append_perm (fun a => decide (f a < n))
      (rows.filter fun a => f a < n + 1)
    rw [List.filter_filter, List.filter_filter] at hsplit
    have hlow : ∀ a, (decide (f a < n) && decide (f a < n + 1)) = decide (f a < n) := by
      intro a
      rw [← Bool.decide_and, decide_eq_decide]
      omega
    have hlast : ∀ a, (!decide (f a < n) && decide (f a < n + 1)) = decide (f a = n) := by
      intro a
      rw [← decide_not, ← Bool.decide_and, decide_eq_decide]
      omega
    simp only [hlow, hlast] at hsplit
    rw [List.range_succ, List.flatMap_append, List.flatMap_singleton]
    exact (ih.append_right _).trans hsplit

/-- How many pages there are, one at least. -/
def pageCount (total L : ℕ) : ℕ := max 1 ((total + (L - 1)) / L)

theorem le_pageCount_mul (hL : 0 < L) (total : ℕ) : total ≤ pageCount total L * L := by
  have hdiv := Nat.div_add_mod (total + (L - 1)) L
  have hmod := Nat.mod_lt (total + (L - 1)) hL
  have hmax : (total + (L - 1)) / L * L ≤ pageCount total L * L :=
    Nat.mul_le_mul_right L (Nat.le_max_right _ _)
  rw [Nat.mul_comm] at hdiv
  omega

/-- **The pages together have every row once**, where no tie crosses a
boundary. -/
theorem pages_perm (hL : 0 < L) (hclean : ∀ i, CleanAt key rows (i * L))
    (s : ℕ → SortedBy key rows) :
    ((List.range (pageCount rows.length L)).flatMap fun i => page (s i).list (i * L) L).Perm
      rows := by
  have hpages : ((List.range (pageCount rows.length L)).flatMap fun i =>
      page (s i).list (i * L) L).Perm ((List.range (pageCount rows.length L)).flatMap fun i =>
        rows.filter fun a => rank key rows a / L = i) :=
    List.Perm.flatMap_left _ fun i _ => page_perm hL (s i) (hclean i) (hclean (i + 1))
  have hall : (rows.filter fun a => rank key rows a / L < pageCount rows.length L) = rows := by
    rw [List.filter_eq_self]
    intro a ha
    have hlt : rank key rows a < rows.length := by
      have hle : rank key rows a ≤ rows.length := List.countP_le_length
      rcases Nat.lt_or_ge (rank key rows a) rows.length with h | h
      · exact h
      · -- a row has no greater key than itself
        have hcount : rows.countP (fun b => key a < key b) = rows.length :=
          Nat.le_antisymm hle h
        have hself := List.countP_eq_length.1 hcount a ha
        simp at hself
    have hcover := le_pageCount_mul hL rows.length
    rw [decide_eq_true_eq, Nat.div_lt_iff_lt_mul hL]
    omega
  exact hpages.trans ((flatMap_filter_perm _ _).trans (by rw [hall]))

/-! ## Pages that are too short -/

theorem length_page (l : List α) (offset limit : ℕ) :
    (page l offset limit).length = min limit (l.length - offset) := by
  unfold page
  rw [List.length_take, List.length_drop]

/-- **Pages shorter than the step between them leave rows out.** -/
theorem length_pages_lt (limit : ℕ) (s : ℕ → SortedBy key rows) (hlimit : limit < L)
    (hrows : limit < rows.length) :
    ((List.range (pageCount rows.length L)).flatMap fun i =>
      page (s i).list (i * L) limit).length < rows.length := by
  have hlen : ∀ i, (page (s i).list (i * L) limit).length = min limit (rows.length - i * L) := by
    intro i
    rw [length_page, (s i).perm.length_eq]
  -- what the first page leaves out is never made up for
  have hsum : ∀ n, 0 < n → ((List.range n).flatMap fun i =>
      page (s i).list (i * L) limit).length + (min L rows.length - limit) ≤
        min (n * L) rows.length := by
    intro n hn
    induction n with
    | zero => exact absurd hn (Nat.lt_irrefl 0)
    | succ n ih =>
      rw [List.range_succ, List.flatMap_append, List.flatMap_singleton, List.length_append, hlen,
        Nat.succ_mul]
      rcases Nat.eq_zero_or_pos n with rfl | hpos
      · simp
        omega
      · have hprev := ih hpos
        omega
  have hpos : 0 < pageCount rows.length L := Nat.lt_of_lt_of_le Nat.one_pos (Nat.le_max_left _ _)
  have htotal := hsum _ hpos
  omega

/-- A page of everything. -/
theorem page_all {limit : ℕ} (h : l.length ≤ limit) : page l 0 limit = l := by
  unfold page
  rw [List.drop_zero, List.take_of_length_le h]

/-! ## Rows that come in during a walk -/

/-- **A row whose key no other row has stands at its rank**, in every
ordering. -/
theorem getElem?_iff_rank (s : SortedBy key rows) (hone : (rows.map key).count (key a) = 1)
    {j : ℕ} : s.list[j]? = some a ↔ a ∈ rows ∧ j = rank key rows a := by
  have hplace : ∀ j, s.list[j]? = some a → j = rank key rows a := by
    intro j hj
    obtain ⟨hlt, hget⟩ := List.getElem?_eq_some_iff.1 hj
    have hsplit : s.list = s.list.take j ++ a :: s.list.drop (j + 1) := by
      rw [← hget, ← List.drop_eq_getElem_cons hlt, List.take_append_drop]
    have hlength : (s.list.take j).length = j := List.length_take_of_le hlt.le
    have hsorted := s.sorted
    have hperm := s.perm
    rw [hsplit] at hsorted hperm
    have hle := rank_le hsorted
    have hless := lt_rankEnd hsorted
    rw [rank_perm hperm] at hle
    rw [rankEnd_perm hperm, rankEnd_eq, hone] at hless
    omega
  constructor
  · exact fun hj => ⟨s.perm.mem_iff.1 (List.mem_of_getElem? hj), hplace j hj⟩
  · rintro ⟨ha, rfl⟩
    obtain ⟨j, hj⟩ := List.mem_iff_getElem?.1 (s.perm.mem_iff.2 ha)
    rwa [← hplace j hj]

/-- **It is on the page that its rank falls into**, and on no other. -/
theorem mem_page_iff_rank (s : SortedBy key rows) (hone : (rows.map key).count (key a) = 1) :
    a ∈ page s.list (i * L) L ↔
      a ∈ rows ∧ i * L ≤ rank key rows a ∧ rank key rows a < (i + 1) * L := by
  have hbound : (i + 1) * L = i * L + L := Nat.succ_mul i L
  unfold page
  rw [List.mem_iff_getElem?]
  constructor
  · rintro ⟨j, hj⟩
    rw [List.getElem?_take, Option.ite_none_right_eq_some, List.getElem?_drop,
      getElem?_iff_rank s hone] at hj
    exact ⟨hj.2.1, by omega, by omega⟩
  · rintro ⟨ha, hle, hlt⟩
    refine ⟨rank key rows a - i * L, ?_⟩
    rw [List.getElem?_take, Option.ite_none_right_eq_some, List.getElem?_drop,
      getElem?_iff_rank s hone]
    exact ⟨by omega, ha, by omega⟩

/-- A place that only moves on is met by a walk that comes to its end. -/
theorem exists_page_of_growing {p : ℕ → ℕ} {n : ℕ} (hp : ∀ i < n, p i ≤ p (i + 1))
    (hn : p n < (n + 1) * L) : ∃ i ≤ n, i * L ≤ p i ∧ p i < (i + 1) * L := by
  induction n with
  | zero => exact ⟨0, le_refl 0, by rw [Nat.zero_mul]; exact Nat.zero_le _, hn⟩
  | succ n ih =>
    by_cases hbehind : (n + 1) * L ≤ p (n + 1)
    · exact ⟨n + 1, le_refl _, hbehind, hn⟩
    · have hstep := hp n (Nat.lt_succ_self n)
      obtain ⟨i, hi, hpage⟩ := ih (fun i hi => hp i (Nat.lt_succ_of_lt hi)) (by omega)
      exact ⟨i, Nat.le_succ_of_le hi, hpage⟩

/-- **A walk to a short page shows a row that stays**, though rows come in
between its pages. -/
theorem exists_mem_page {rows : ℕ → List α} {a : ℕ → α} {n : ℕ} {k : κ}
    (s : ∀ i, SortedBy key (rows i))
    (hgrow : ∀ i < n, ((rows i).map key).Sublist ((rows (i + 1)).map key))
    (hmem : ∀ i ≤ n, a i ∈ rows i) (hkey : ∀ i ≤ n, key (a i) = k)
    (hone : ∀ i ≤ n, ((rows i).map key).count k = 1)
    (hshort : (page (s n).list (n * L) L).length < L) :
    ∃ i ≤ n, a i ∈ page (s i).list (i * L) L := by
  have hrank : ∀ i ≤ n, rank key (rows i) (a i) = ((rows i).map key).countP fun x => k < x := by
    intro i hi
    rw [List.countP_map, rank, hkey i hi]
    rfl
  have hlast : rank key (rows n) (a n) < (n + 1) * L := by
    have hlt := ((getElem?_iff_rank (s n) ((hkey n le_rfl).symm ▸ hone n le_rfl)).2
      ⟨hmem n le_rfl, rfl⟩)
    obtain ⟨hlt, -⟩ := List.getElem?_eq_some_iff.1 hlt
    have hbound : (n + 1) * L = n * L + L := Nat.succ_mul n L
    rw [length_page] at hshort
    omega
  obtain ⟨i, hi, hle, hlt⟩ := exists_page_of_growing
    (p := fun i => rank key (rows i) (a i)) (fun i hi => by
      show rank key (rows i) (a i) ≤ rank key (rows (i + 1)) (a (i + 1))
      rw [hrank i hi.le, hrank (i + 1) hi]
      exact (hgrow i hi).countP_le) hlast
  exact ⟨i, hi, (mem_page_iff_rank (s i) ((hkey i hi).symm ▸ hone i hi)).2 ⟨hmem i hi, hle, hlt⟩⟩

/-! ## A walk to a short page -/

end Paging

end AigisZero
