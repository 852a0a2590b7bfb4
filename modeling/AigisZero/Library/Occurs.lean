import AigisZero.Library.Utf8
import Mathlib.Data.List.Infix

/-!
# Texts that occur in bytes

A text occurs in bytes where its encoding is a stretch of them. An ASCII
byte stands for its own character in an encoding, so a text without a
character does not reach over the byte of the character.
-/

namespace AigisZero

/-! ## Encodings -/

theorem utf8_append (s t : String) : utf8 (s ++ t) = utf8 s ++ utf8 t := by simp [utf8]

theorem utf8_ofList_cons (c : Char) (cs : List Char) :
    utf8 (String.ofList (c :: cs)) = String.utf8EncodeChar c ++ utf8 (String.ofList cs) := by
  have hcons : String.ofList (c :: cs) = String.ofList [c] ++ String.ofList cs := by
    rw [← String.ofList_append]
    rfl
  rw [hcons, utf8_append]
  simp [utf8, List.utf8Encode_singleton]

/-- An ASCII byte in the encoding of a character is the character. -/
theorem toNat_of_mem_utf8EncodeChar {c : Char} {b : UInt8} (h : b ∈ String.utf8EncodeChar c)
    (hb : b.toNat < 128) : c.toNat = b.toNat := by
  have hc : c.val.toNat = c.toNat := rfl
  -- the bytes of a longer encoding have their high bit
  have hhigh : ∀ n, 128 ≤ n → n < 256 → b ≠ UInt8.ofNat n := by
    rintro n hle hlt rfl
    rw [UInt8.toNat_ofNat'] at hb
    omega
  unfold String.utf8EncodeChar at h
  dsimp only at h
  rw [hc] at h
  split_ifs at h
  · obtain rfl := List.mem_singleton.1 h
    rw [UInt8.toNat_ofNat']
    omega
  all_goals simp only [List.mem_cons, List.not_mem_nil, or_false] at h
  · rcases h with h | h <;> exact absurd h (hhigh _ (by omega) (by omega))
  · rcases h with h | h | h <;> exact absurd h (hhigh _ (by omega) (by omega))
  · rcases h with h | h | h | h <;> exact absurd h (hhigh _ (by omega) (by omega))

/-- An ASCII byte in the encoding of a text is a character of it. -/
theorem mem_of_mem_utf8 {s : String} {b : UInt8} (h : b ∈ utf8 s) (hb : b.toNat < 128) :
    ∃ c ∈ s.toList, c.toNat = b.toNat := by
  obtain ⟨cs, rfl⟩ : ∃ cs, s = String.ofList cs := ⟨s.toList, String.ofList_toList.symm⟩
  rw [String.toList_ofList]
  induction cs with
  | nil => simp [utf8] at h
  | cons c cs ih =>
    rw [utf8_ofList_cons, List.mem_append] at h
    rcases h with h | h
    · exact ⟨c, List.mem_cons_self, toNat_of_mem_utf8EncodeChar h hb⟩
    · obtain ⟨c', hc', heq⟩ := ih h
      exact ⟨c', List.mem_cons_of_mem _ hc', heq⟩

/-! ## Stretches -/

/-- **A stretch without a letter** does not reach over it. -/
theorem infix_append_cons {α : Type*} {w l r : List α} {x : α} (hx : x ∉ w) :
    w <:+: l ++ x :: r ↔ w <:+: l ∨ w <:+: r := by
  constructor
  · rintro ⟨pre, post, heq⟩
    rw [List.append_assoc] at heq
    rcases List.append_eq_append_iff.1 heq with ⟨l', rfl, htail⟩ | ⟨r', hpre, htail⟩
    · -- the stretch starts before the letter
      rcases List.append_eq_append_iff.1 htail with ⟨m, rfl, -⟩ | ⟨m, rfl, hm⟩
      · exact .inl ⟨pre, m, by simp⟩
      · cases m with
        | nil => exact .inl ⟨pre, [], by simp⟩
        | cons y m =>
          obtain ⟨rfl, -⟩ := List.cons.inj hm
          exact absurd (List.mem_append_right _ List.mem_cons_self) hx
    · cases r' with
      | nil =>
        cases w with
        | nil => exact .inl List.nil_infix
        | cons y w =>
          obtain ⟨rfl, -⟩ := List.cons.inj htail
          exact absurd List.mem_cons_self hx
      | cons y r' =>
        obtain ⟨-, rfl⟩ := List.cons.inj htail
        exact .inr ⟨r', post, by simp⟩
  · rintro (h | h)
    · exact h.trans (List.prefix_append _ _).isInfix
    · exact h.trans ((List.suffix_cons x r).trans (List.suffix_append _ _)).isInfix

/-- **The text occurs in the bytes.** -/
def Occurs (s : String) (b : Bytes) : Prop := utf8 s <:+: b

instance (s : String) (b : Bytes) : Decidable (Occurs s b) :=
  inferInstanceAs (Decidable (utf8 s <:+: b))

namespace Occurs

variable {s t : String} {b b' : Bytes}

theorem mono (h : Occurs s b) (hb : b <:+: b') : Occurs s b' := h.trans hb

/-- A stretch of a text occurs in its encoding. -/
theorem of_infix (h : s.toList <:+: t.toList) : Occurs s (utf8 t) := by
  obtain ⟨pre, post, heq⟩ := h
  have ht : t = String.ofList pre ++ s ++ String.ofList post := by
    apply String.toList_inj.1
    simp [← heq]
  rw [ht, Occurs, utf8_append, utf8_append]
  exact ⟨_, _, rfl⟩

end Occurs

end AigisZero
