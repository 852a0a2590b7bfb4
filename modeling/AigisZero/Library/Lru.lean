import Mathlib.Data.Finset.Card

/-!
# Least-recently-used maps

A map of at most `cap` entries, kept most recent first. Writing an entry
makes it the most recent one; where that is one entry too many, the last
one goes. What the users of the map need is when an entry is still there:
as long as fewer than `cap` distinct keys were touched after it.
-/

namespace AigisZero

/-- **A bounded map, most recent entry first.** Its keys are distinct and
it never holds more than `cap` of them. -/
structure Lru (K V : Type*) (cap : ℕ) where
  /-- The entries, most recent first. -/
  entries : List (K × V)
  nodup : (entries.map Prod.fst).Nodup
  length_le : entries.length ≤ cap

namespace Lru

variable {K V : Type*} [DecidableEq K] {cap : ℕ}

/-- The map without entries. -/
def empty : Lru K V cap := ⟨[], List.nodup_nil, Nat.zero_le _⟩

/-- The value under a key, the order of the entries left alone. -/
def peek (c : Lru K V cap) (k : K) : Option V := (c.entries.find? (·.1 = k)).map Prod.snd

/-- The entries without the ones of a key. -/
def others (c : Lru K V cap) (k : K) : List (K × V) := c.entries.filter (·.1 ≠ k)

theorem nodup_others (c : Lru K V cap) (k : K) (v : V) :
    (((k, v) :: c.others k).map Prod.fst).Nodup := by
  rw [List.map_cons, List.nodup_cons]
  refine ⟨?_, c.nodup.sublist (List.filter_sublist.map _)⟩
  intro h
  obtain ⟨e, he, hek⟩ := List.mem_map.1 h
  simp [others, hek] at he

/-- **Put**: the entry becomes the most recent one, and what is past the
bound goes. -/
def put (c : Lru K V cap) (k : K) (v : V) : Lru K V cap where
  entries := ((k, v) :: c.others k).take cap
  nodup := by
    rw [List.map_take]
    exact (c.nodup_others k v).sublist (List.take_sublist _ _)
  length_le := List.length_take_le _ _

/-- **Get for writing**: the value under a key, and the map once another
value is written through the reference. The access makes the entry the
most recent one. -/
def getMut (c : Lru K V cap) (k : K) : Option (V × (V → Lru K V cap)) :=
  (c.peek k).map fun v => (v, c.put k)

variable {c : Lru K V cap} {k k' : K} {v w : V}

theorem peek_eq_some_iff : c.peek k = some v ↔ (k, v) ∈ c.entries := by
  simp only [peek, Option.map_eq_some_iff]
  constructor
  · rintro ⟨⟨k', v'⟩, hfind, rfl⟩
    have hk : k' = k := by simpa using List.find?_some hfind
    exact hk ▸ List.mem_of_find?_eq_some hfind
  · intro hmem
    cases hfind : c.entries.find? (·.1 = k) with
    | none =>
      have hk := List.find?_eq_none.1 hfind _ hmem
      simp at hk
    | some e =>
      have hk : e.1 = k := by simpa using List.find?_some hfind
      have he : e = (k, v) := List.inj_on_of_nodup_map c.nodup (List.mem_of_find?_eq_some hfind)
        hmem hk
      exact ⟨e, rfl, he ▸ rfl⟩

@[simp] theorem peek_empty : (empty : Lru K V cap).peek k = none := rfl

theorem peek_put_self (hcap : 0 < cap) : (c.put k v).peek k = some v := by
  obtain ⟨n, rfl⟩ := Nat.exists_eq_succ_of_ne_zero hcap.ne'
  exact peek_eq_some_iff.2 List.mem_cons_self

/-- A put changes no other entry: what is there after it was there
before. -/
theorem peek_of_peek_put (hne : k' ≠ k) (h : (c.put k v).peek k' = some w) :
    c.peek k' = some w := by
  have hmem : (k', w) ∈ ((k, v) :: c.others k).take cap := peek_eq_some_iff.1 h
  rcases List.mem_cons.1 (List.mem_of_mem_take hmem) with heq | hmem
  · exact absurd (congrArg Prod.fst heq) hne
  · exact peek_eq_some_iff.2 (List.mem_of_mem_filter hmem)

/-! ## How recent an entry is -/

/-- The entry of `k` is there with value `v`, and only keys of `D` were
touched since. -/
def Within (c : Lru K V cap) (k : K) (v : V) (D : Finset K) : Prop :=
  ∃ pre post, c.entries = pre ++ (k, v) :: post ∧ ∀ e ∈ pre, e.1 ∈ D

theorem Within.peek {D : Finset K} (h : c.Within k v D) : c.peek k = some v := by
  obtain ⟨pre, post, hc, -⟩ := h
  exact peek_eq_some_iff.2 (by simp [hc])

/-- An entry just put has nothing before it. -/
theorem within_put_self (hcap : 0 < cap) : (c.put k v).Within k v ∅ := by
  obtain ⟨n, rfl⟩ := Nat.exists_eq_succ_of_ne_zero hcap.ne'
  exact ⟨[], (c.others k).take n, rfl, by simp⟩

/-- **An entry survives the touch of another key** while the keys touched
since leave room for it. -/
theorem Within.put {D : Finset K} (h : c.Within k v D) (hne : k' ≠ k)
    (hD : (insert k' D).card < cap) : (c.put k' w).Within k v (insert k' D) := by
  obtain ⟨pre, post, hc, hpre⟩ := h
  -- the entries before `k` once `k'` is put
  let pre' : List (K × V) := (k', w) :: pre.filter (·.1 ≠ k')
  have hothers : (k', w) :: c.others k' =
      pre' ++ (k, v) :: post.filter (·.1 ≠ k') := by
    simp [others, hc, pre', hne.symm]
  have hkeys : ∀ e ∈ pre', e.1 ∈ insert k' D := by
    intro e he
    rcases List.mem_cons.1 he with rfl | he
    · exact Finset.mem_insert_self _ _
    · exact Finset.mem_insert_of_mem (hpre e (List.mem_of_mem_filter he))
  have hnodup : (pre'.map Prod.fst).Nodup := by
    have := c.nodup_others k' w
    rw [hothers, List.map_append] at this
    exact (List.nodup_append.1 this).1
  have hlen : pre'.length < cap := by
    have hsub : (pre'.map Prod.fst).toFinset ⊆ insert k' D := by
      intro x hx
      obtain ⟨e, he, rfl⟩ := List.mem_map.1 (List.mem_toFinset.1 hx)
      exact hkeys e he
    have hcard := Finset.card_le_card hsub
    rw [List.toFinset_card_of_nodup hnodup, List.length_map] at hcard
    omega
  obtain ⟨n, hn⟩ : ∃ n, cap = pre'.length + (n + 1) := ⟨cap - pre'.length - 1, by omega⟩
  refine ⟨pre', (post.filter (·.1 ≠ k')).take n, ?_, hkeys⟩
  show ((k', w) :: c.others k').take cap = _
  rw [hothers, hn, List.take_length_add_append, List.take_succ_cons]

end Lru

end AigisZero
