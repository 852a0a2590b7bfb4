import AigisZero.Library.Utf8
import Mathlib.Algebra.BigOperators.Group.List.Basic
import Mathlib.Tactic.Linarith
import Mathlib.Tactic.Ring

/-!
# Readers of a byte buffer

A reader takes bytes off the front of a buffer. It ends with a value and
the bytes it left, or with a failure; a loop that goes round without taking
a byte has no end. Each reading counts the read operations made.

Three things are said of a reader here and kept by sequencing and by both
kinds of loop. It is *sequential* if bytes that come later change nothing
it has settled. It is *within* a budget if it ends, and the reads it makes
are bounded by the bytes. It *reads* an encoding if it takes exactly these
bytes off whatever they are at the front of.
-/

namespace AigisZero

/-- What a reading comes to. -/
inductive Reading (ε α : Type) where
  /-- A value, the bytes after it, and the reads made. -/
  | done (a : α) (rest : Bytes) (reads : ℕ)
  | failed (e : ε) (reads : ℕ)
  /-- A loop that never ends. -/
  | endless
  deriving DecidableEq

/-- The reading, made after `n` reads. -/
def Reading.after {ε α : Type} (n : ℕ) : Reading ε α → Reading ε α
  | .done a rest m => .done a rest (n + m)
  | .failed e m => .failed e (n + m)
  | .endless => .endless

namespace Reading

variable {ε α : Type} {x : Reading ε α} {rest : Bytes} {a : α} {e : ε} {m n : ℕ}

theorem after_eq_done : x.after n = .done a rest m ↔ ∃ k, x = .done a rest k ∧ m = n + k := by
  cases x with
  | done b rest' k =>
    constructor
    · intro h
      cases h
      exact ⟨k, rfl, rfl⟩
    · rintro ⟨_, ⟨⟩, rfl⟩
      rfl
  | failed e k => simp [after]
  | endless => simp [after]

theorem after_eq_failed : x.after n = .failed e m ↔ ∃ k, x = .failed e k ∧ m = n + k := by
  cases x with
  | done b rest' k => simp [after]
  | failed e' k =>
    constructor
    · intro h
      cases h
      exact ⟨k, rfl, rfl⟩
    · rintro ⟨_, ⟨⟩, rfl⟩
      rfl
  | endless => simp [after]

@[simp] theorem after_eq_endless : x.after n = .endless ↔ x = .endless := by
  cases x with
  | done b rest' k => simp [after]
  | failed e' k => simp [after]
  | endless => simp [after]

/-- The reading of `len` bytes ends. It made at most `k` reads for each byte
taken and `d` more; where it failed, `k` for each byte and `D` more. -/
def Within (k : ℕ) (d D : ℤ) (len : ℕ) : Reading ε α → Prop
  | .done _ rest n => (n : ℤ) + k * rest.length ≤ k * len + d
  | .failed _ n => (n : ℤ) ≤ k * len + D
  | .endless => False

/-- The reading ends, and counts as one read at least. -/
def Counted : Reading ε α → Prop
  | .done _ _ n => 1 ≤ n
  | .failed _ n => 1 ≤ n
  | .endless => False

end Reading

/-- **A reader.** -/
def Reader (ε α : Type) := Bytes → Reading ε α

namespace Reader

variable {ε α β σ : Type}

instance : Monad (Reader ε) where
  pure a := fun bs => .done a bs 0
  bind r f := fun bs =>
    match r bs with
    | .done a rest n => (f a rest).after n
    | .failed e n => .failed e n
    | .endless => .endless

/-- The reader that fails. -/
def fail (e : ε) : Reader ε α := fun _ => .failed e 0

/-- The value there is, or the failure. -/
def ofOption (e : ε) : Option α → Reader ε α
  | some a => pure a
  | none => fail e

/-- `for _ in 0..n`: the body is run `n` times. -/
def times : ℕ → (σ → Reader ε σ) → σ → Reader ε σ
  | 0, _, s => pure s
  | n + 1, body, s => do
    let s ← body s
    times n body s

/-- A loop of at most `fuel` rounds, which the body leaves by `.inr`. -/
def loop (body : σ → Reader ε (σ ⊕ β)) : ℕ → σ → Reader ε β
  | 0, _ => fun _ => .endless
  | fuel + 1, s => body s >>= Sum.elim (loop body fuel) pure

/-- `loop { … }`. A loop has more rounds than the buffer has bytes only if
some round takes none. -/
def forever (body : σ → Reader ε (σ ⊕ β)) (s : σ) : Reader ε β :=
  fun bs => loop body (bs.length + 1) s bs

variable {r : Reader ε α} {f : α → Reader ε β} {bs rest : Bytes} {a : α} {b : β} {e : ε} {n : ℕ}

@[simp] theorem pure_apply (a : α) (bs : Bytes) :
    (pure a : Reader ε α) bs = .done a bs 0 := rfl

theorem bind_apply (r : Reader ε α) (f : α → Reader ε β) (bs : Bytes) : (r >>= f) bs =
    match r bs with
    | .done a rest n => (f a rest).after n
    | .failed e n => .failed e n
    | .endless => .endless := rfl

/-- A sequence that ends with a value: both its readers do. -/
theorem bind_eq_done : (r >>= f) bs = .done b rest n ↔
    ∃ a mid n₁ n₂, r bs = .done a mid n₁ ∧ f a mid = .done b rest n₂ ∧ n = n₁ + n₂ := by
  rw [bind_apply]
  cases hr : r bs with
  | done a mid n₁ =>
    simp only [Reading.after_eq_done]
    constructor
    · rintro ⟨n₂, hf, rfl⟩
      exact ⟨a, mid, n₁, n₂, rfl, hf, rfl⟩
    · rintro ⟨_, _, _, n₂, ⟨⟩, hf, rfl⟩
      exact ⟨n₂, hf, rfl⟩
  | failed e n₁ => simp
  | endless => simp

/-- A sequence that fails: the first reader does, or the second after it. -/
theorem bind_eq_failed : (r >>= f) bs = .failed e n ↔
    r bs = .failed e n ∨
      ∃ a mid n₁ n₂, r bs = .done a mid n₁ ∧ f a mid = .failed e n₂ ∧ n = n₁ + n₂ := by
  rw [bind_apply]
  cases hr : r bs with
  | done a mid n₁ =>
    simp only [Reading.after_eq_failed]
    constructor
    · rintro ⟨n₂, hf, rfl⟩
      exact .inr ⟨a, mid, n₁, n₂, rfl, hf, rfl⟩
    · rintro (⟨⟨⟩⟩ | ⟨_, _, _, n₂, ⟨⟩, hf, rfl⟩)
      exact ⟨n₂, hf, rfl⟩
  | failed e n₁ => simp
  | endless => simp

/-- More fuel changes nothing of a loop that ends. -/
theorem loop_of_le {body : σ → Reader ε (σ ⊕ β)} {fuel : ℕ} :
    ∀ {m : ℕ} {s : σ} {bs : Bytes}, loop body fuel s bs ≠ .endless → fuel ≤ m →
      loop body m s bs = loop body fuel s bs := by
  induction fuel with
  | zero =>
    intro m s bs h
    exact absurd rfl h
  | succ fuel ih =>
    intro m s bs h hm
    obtain ⟨m, rfl⟩ : ∃ k, m = k + 1 := ⟨m - 1, by omega⟩
    simp only [loop, bind_apply] at h ⊢
    cases hb : body s bs with
    | done x rest n =>
      rw [hb] at h
      cases x with
      | inl s' =>
        have hne : loop body fuel s' rest ≠ .endless := by
          intro he
          exact h (Reading.after_eq_endless.2 he)
        exact congrArg (Reading.after n) (ih hne (by omega))
      | inr b => rfl
    | failed e n => rfl
    | endless => rfl

/-! ## Sequential readers -/

/-- **A reader is sequential**: what it settled on the bytes it was given
stands whatever bytes come after them. Only a failure for lack of bytes,
one that is `short`, may go away. -/
structure Sequential (short : ε → Bool) (r : Reader ε α) : Prop where
  done : ∀ {bs a rest n}, r bs = .done a rest n → ∀ more, r (bs ++ more) = .done a (rest ++ more) n
  failed : ∀ {bs e n}, r bs = .failed e n → short e = false → ∀ more, r (bs ++ more) = .failed e n

variable {short : ε → Bool}

theorem sequential_pure (a : α) : Sequential short (pure a : Reader ε α) where
  done h more := by
    cases h
    rfl
  failed h := nomatch h

theorem sequential_fail (e : ε) : Sequential short (fail e : Reader ε α) where
  done h := nomatch h
  failed h _ more := by
    cases h
    rfl

theorem sequential_ofOption (e : ε) (o : Option α) : Sequential short (ofOption e o) := by
  cases o with
  | some a => exact sequential_pure a
  | none => exact sequential_fail e

theorem Sequential.bind (hr : Sequential short r) (hf : ∀ a, Sequential short (f a)) :
    Sequential short (r >>= f) where
  done h more := by
    obtain ⟨a, mid, n₁, n₂, h₁, h₂, rfl⟩ := bind_eq_done.1 h
    exact bind_eq_done.2 ⟨a, mid ++ more, n₁, n₂, hr.done h₁ more, (hf a).done h₂ more, rfl⟩
  failed h he more := by
    obtain h₁ | ⟨a, mid, n₁, n₂, h₁, h₂, rfl⟩ := bind_eq_failed.1 h
    · exact bind_eq_failed.2 (.inl (hr.failed h₁ he more))
    · exact bind_eq_failed.2
        (.inr ⟨a, mid ++ more, n₁, n₂, hr.done h₁ more, (hf a).failed h₂ he more, rfl⟩)

theorem Sequential.times {body : σ → Reader ε σ} (h : ∀ s, Sequential short (body s)) :
    ∀ (n : ℕ) (s : σ), Sequential short (times n body s) := by
  intro n
  induction n with
  | zero => exact sequential_pure
  | succ n ih =>
    intro s
    exact (h s).bind ih

theorem Sequential.loop {body : σ → Reader ε (σ ⊕ β)} (h : ∀ s, Sequential short (body s)) :
    ∀ (fuel : ℕ) (s : σ), Sequential short (loop body fuel s) := by
  intro fuel
  induction fuel with
  | zero => exact fun s => ⟨(nomatch ·), (nomatch ·)⟩
  | succ fuel ih =>
    intro s
    refine (h s).bind fun x => ?_
    cases x with
    | inl s' => exact ih s'
    | inr b => exact sequential_pure b

theorem Sequential.forever {body : σ → Reader ε (σ ⊕ β)} (h : ∀ s, Sequential short (body s))
    (s : σ) : Sequential short (forever body s) := by
  -- The longer buffer gives the loop more fuel, which `loop_of_le` discounts.
  have hfuel : ∀ (bs more : Bytes), bs.length + 1 ≤ (bs ++ more).length + 1 := by
    intro bs more
    rw [List.length_append]
    omega
  constructor
  · intro bs a rest n hdone more
    have hlong := (Sequential.loop h (bs.length + 1) s).done hdone more
    exact (loop_of_le (by simp [hlong]) (hfuel bs more)).trans hlong
  · intro bs e n hfailed he more
    have hlong := (Sequential.loop h (bs.length + 1) s).failed hfailed he more
    exact (loop_of_le (by simp [hlong]) (hfuel bs more)).trans hlong

/-- What takes a message to its last byte settles on no strict prefix of
it. -/
theorem Sequential.short_of_append (hr : Sequential short r) (h : r bs = .done a [] n)
    {p more : Bytes} (hbs : bs = p ++ more) (hmore : more ≠ []) (hend : r p ≠ .endless) :
    ∃ e m, r p = .failed e m ∧ short e = true := by
  rw [hbs] at h
  cases hp : r p with
  | done b rest m =>
    have hrest := (hr.done hp more).symm.trans h
    injection hrest with _ hnil
    exact absurd (List.append_eq_nil_iff.1 hnil).2 hmore
  | failed e m =>
    refine ⟨e, m, rfl, ?_⟩
    by_contra he
    have hfail := hr.failed hp (Bool.eq_false_of_not_eq_true he) more
    cases hfail.symm.trans h
  | endless => exact absurd hp hend

/-! ## Readers within a budget -/

/-- The reader takes `m` bytes or more. -/
def Takes (m : ℕ) (r : Reader ε α) : Prop :=
  ∀ {bs a rest n}, r bs = .done a rest n → rest.length + m ≤ bs.length

/-- **A reader is within a budget** if every reading is. -/
def Within (k : ℕ) (d D : ℤ) (r : Reader ε α) : Prop :=
  ∀ bs, (r bs).Within k d D bs.length

variable {k m : ℕ} {d d₁ d₂ D D₁ D₂ : ℤ}

theorem Within.not_endless (h : Within k d D r) (bs : Bytes) : r bs ≠ .endless := by
  intro he
  have hbs := h bs
  rw [he] at hbs
  exact hbs

theorem within_pure (a : α) (hd : 0 ≤ d) : Within k d D (pure a : Reader ε α) := by
  intro bs
  simp only [pure_apply, Reading.Within]
  omega

theorem within_fail (e : ε) (hD : 0 ≤ D) : Within k d D (fail e : Reader ε α) := by
  intro bs
  have hpos : (0 : ℤ) ≤ k * bs.length := by positivity
  simp only [fail, Reading.Within]
  omega

theorem within_ofOption (e : ε) (o : Option α) (hd : 0 ≤ d) (hD : 0 ≤ D) :
    Within k d D (ofOption e o) := by
  cases o with
  | some a => exact within_pure a hd
  | none => exact within_fail e hD

/-- What a reading that follows another is within. -/
theorem within_after {x : Reading ε α} {len mid n : ℕ} (hx : x.Within k d₂ D₂ mid)
    (hn : (n : ℤ) + k * mid ≤ k * len + d₁) (hd : d₁ + d₂ ≤ d) (hD : d₁ + D₂ ≤ D) :
    (x.after n).Within k d D len := by
  cases x with
  | done b rest n₂ =>
    simp only [Reading.Within, Reading.after, Nat.cast_add] at hx ⊢
    linarith
  | failed e n₂ =>
    simp only [Reading.Within, Reading.after, Nat.cast_add] at hx ⊢
    linarith
  | endless => exact hx

/-- Budgets add up along a sequence. -/
theorem Within.bind (hr : Within k d₁ D₁ r) (hf : ∀ a, Within k d₂ D₂ (f a)) (hd : d₁ + d₂ ≤ d)
    (hD₁ : D₁ ≤ D) (hD₂ : d₁ + D₂ ≤ D) : Within k d D (r >>= f) := by
  intro bs
  have hbs := hr bs
  rw [bind_apply]
  cases hrb : r bs with
  | done a mid n =>
    rw [hrb] at hbs
    exact within_after (hf a mid) hbs hd hD₂
  | failed e n =>
    rw [hrb] at hbs
    simp only [Reading.Within] at hbs ⊢
    linarith
  | endless =>
    rw [hrb] at hbs
    exact hbs

/-- A value made of the one read costs nothing. -/
theorem Within.bind_pure (h : Within k d D r) (g : α → β) :
    Within k d D (r >>= fun a => pure (g a)) := by
  have hpure : ∀ a, Within k 0 (D - d) (pure (g a) : Reader ε β) := fun a =>
    within_pure (g a) le_rfl
  exact h.bind hpure (by omega) le_rfl (by omega)

theorem Within.mono (h : Within k d₁ D₁ r) (hd : d₁ ≤ d) (hD : D₁ ≤ D) : Within k d D r := by
  intro bs
  have hbs := h bs
  cases hrb : r bs with
  | done a rest n =>
    rw [hrb] at hbs
    simp only [Reading.Within] at hbs ⊢
    linarith
  | failed e n =>
    rw [hrb] at hbs
    simp only [Reading.Within] at hbs ⊢
    linarith
  | endless =>
    rw [hrb] at hbs
    exact hbs

/-- A reader that takes `m` bytes has `j * m` reads to spare once each byte
is good for `j` more. -/
theorem Within.widen (h : Within k d D r) (hm : Takes m r) (j : ℕ) :
    Within (k + j) (d - j * m) D r := by
  intro bs
  have hbs := h bs
  cases hrb : r bs with
  | done a rest n =>
    rw [hrb] at hbs
    have htakes : (rest.length : ℤ) + m ≤ bs.length := by exact_mod_cast hm hrb
    have hj : (j : ℤ) * (rest.length + m) ≤ j * bs.length := by gcongr
    simp only [Reading.Within, Nat.cast_add] at hbs ⊢
    linarith
  | failed e n =>
    rw [hrb] at hbs
    have hj : (0 : ℤ) ≤ j * bs.length := by positivity
    simp only [Reading.Within, Nat.cast_add] at hbs ⊢
    linarith
  | endless =>
    rw [hrb] at hbs
    exact hbs

/-- A reader that makes fewer reads than its bytes allow takes some. -/
theorem Within.takes_one (h : Within k d D r) (hd : d < 0) : Takes 1 r := by
  intro bs a rest n hdone
  have hbs := h bs
  rw [hdone] at hbs
  simp only [Reading.Within] at hbs
  have hlt : (k : ℤ) * rest.length < k * bs.length := by omega
  have := Int.lt_of_mul_lt_mul_left hlt (by omega)
  omega

theorem Within.times {body : σ → Reader ε σ} (h : ∀ s, Within k d D (body s)) (hd : d ≤ 0) :
    ∀ (n : ℕ) (s : σ), Within k 0 D (times n body s) := by
  intro n
  induction n with
  | zero => exact fun s => within_pure s le_rfl
  | succ n ih =>
    intro s
    exact (h s).bind ih (by omega) le_rfl (by omega)

/-- A loop each of whose rounds takes a byte ends before its fuel. -/
theorem Within.loop {body : σ → Reader ε (σ ⊕ β)} (h : ∀ s, Within k d D (body s)) (hd : d < 0) :
    ∀ (fuel : ℕ) (s : σ) (bs : Bytes), bs.length < fuel →
      (Reader.loop body fuel s bs).Within k d D bs.length := by
  intro fuel
  induction fuel with
  | zero =>
    intro s bs hlt
    omega
  | succ fuel ih =>
    intro s bs hlt
    have hbs := h s bs
    simp only [Reader.loop, bind_apply]
    cases hb : body s bs with
    | done x rest n =>
      have htakes := (h s).takes_one hd hb
      rw [hb] at hbs
      cases x with
      | inl s' => exact within_after (ih s' rest (by omega)) hbs (by omega) (by omega)
      | inr b =>
        have hpure : ((pure b : Reader ε β) rest).Within k 0 D rest.length :=
          within_pure b le_rfl rest
        exact within_after hpure hbs (by omega) (by omega)
    | failed e n =>
      rw [hb] at hbs
      exact hbs
    | endless =>
      rw [hb] at hbs
      exact hbs

theorem Within.forever {body : σ → Reader ε (σ ⊕ β)} (h : ∀ s, Within k d D (body s))
    (hd : d < 0) (s : σ) : Within k d D (forever body s) :=
  fun bs => Within.loop h hd (bs.length + 1) s bs (by omega)

/-! ## Reading an encoding -/

/-- **The reader reads the encoding** `code` as `a`: it takes these bytes
off the front of a buffer and nothing after them. -/
def Reads (r : Reader ε α) (code : Bytes) (a : α) : Prop :=
  ∀ rest, ∃ n, r (code ++ rest) = .done a rest n

variable {c c₁ c₂ : Bytes}

theorem reads_pure (a : α) : Reads (pure a : Reader ε α) [] a := fun _ => ⟨0, rfl⟩

theorem Reads.bind (hr : Reads r c₁ a) (hf : Reads (f a) c₂ b) :
    Reads (r >>= f) (c₁ ++ c₂) b := by
  intro rest
  obtain ⟨n₁, h₁⟩ := hr (c₂ ++ rest)
  obtain ⟨n₂, h₂⟩ := hf rest
  rw [← List.append_assoc] at h₁
  exact ⟨n₁ + n₂, bind_eq_done.2 ⟨a, c₂ ++ rest, n₁, n₂, h₁, h₂, rfl⟩⟩

theorem Reads.bind_pure (hr : Reads r c a) (g : α → β) :
    Reads (r >>= fun a => pure (g a)) c (g a) := by
  have hbind : Reads (r >>= fun a => pure (g a)) (c ++ []) (g a) := hr.bind (reads_pure (g a))
  rwa [List.append_nil] at hbind

/-- A counted loop reads as many encodings as it has rounds. -/
theorem Reads.times {ι : Type} {body : σ → Reader ε σ} {next : σ → ι → σ} {code : ι → Bytes}
    {items : List ι} (h : ∀ i ∈ items, ∀ s, Reads (body s) (code i) (next s i)) :
    ∀ s, Reads (times items.length body s) (items.flatMap code) (items.foldl next s) := by
  induction items with
  | nil => exact reads_pure
  | cons i items ih =>
    intro s
    rw [List.length_cons, List.flatMap_cons, List.foldl_cons]
    exact (h i (by simp) s).bind (ih (fun j hj => h j (List.mem_cons_of_mem i hj)) (next s i))

/-- A loop reads encodings until the one that ends it. -/
theorem Reads.loop {ι : Type} {body : σ → Reader ε (σ ⊕ β)} {next : σ → ι → σ} {code : ι → Bytes}
    {items : List ι} (h : ∀ i ∈ items, ∀ s, Reads (body s) (code i) (.inl (next s i))) :
    ∀ s, Reads (body (items.foldl next s)) c (.inr b) →
      Reads (Reader.loop body (items.length + 1) s) (items.flatMap code ++ c) b := by
  induction items with
  | nil =>
    intro s hstop
    have hlast : Reads (body s >>= Sum.elim (Reader.loop body 0) pure) (c ++ []) b :=
      hstop.bind (reads_pure b)
    rwa [List.append_nil] at hlast
  | cons i items ih =>
    intro s hstop
    have hrest := ih (fun j hj => h j (List.mem_cons_of_mem i hj)) (next s i) hstop
    rw [List.flatMap_cons, List.append_assoc]
    exact (h i (by simp) s).bind hrest

theorem Reads.forever {ι : Type} {body : σ → Reader ε (σ ⊕ β)} {next : σ → ι → σ}
    {code : ι → Bytes} {items : List ι} (hcode : ∀ i ∈ items, code i ≠ [])
    (h : ∀ i ∈ items, ∀ s, Reads (body s) (code i) (.inl (next s i))) {s : σ}
    (hstop : Reads (body (items.foldl next s)) c (.inr b)) :
    Reads (forever body s) (items.flatMap code ++ c) b := by
  have hlen : items.length ≤ (items.flatMap code).length := by
    rw [List.length_flatMap]
    have hsum := List.length_le_sum_of_one_le (items.map fun i => (code i).length)
      (by simpa [Nat.one_le_iff_ne_zero] using hcode)
    rwa [List.length_map] at hsum
  intro rest
  obtain ⟨n, hn⟩ := Reads.loop h s hstop rest
  have hend : Reader.loop body (items.length + 1) s (items.flatMap code ++ c ++ rest) ≠
      .endless := by
    rw [hn]
    exact nofun
  refine ⟨n, (loop_of_le hend ?_).trans hn⟩
  simp only [List.length_append]
  omega

end Reader

end AigisZero
