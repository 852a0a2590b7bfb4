import Mathlib.Data.List.TakeWhile
import Mathlib.Tactic.Common

/-!
# Addresses as texts

The readers of IPv4 and IPv6 addresses as the standard library of Rust has
them: four decimal numbers without leading zeros, and up to eight
hexadecimal groups with `::` in the place of those that are zero, the last
two of which can be an IPv4 address. A reader leaves what comes after.
-/

namespace AigisZero.IpText

/-- The value of a digit in a base up to sixteen. -/
def digitVal (c : Char) : ℕ :=
  if '0' ≤ c ∧ c ≤ '9' then c.toNat - 48
  else if 'a' ≤ c ∧ c ≤ 'f' then c.toNat - 87
  else if 'A' ≤ c ∧ c ≤ 'F' then c.toNat - 55
  else 16

/-- `Parser::read_number`: at most so many digits, and leading zeros only
where they are allowed. -/
def read_number (radix max_digits : ℕ) ( allow_zero_prefix : Bool) (cs : List Char) :
    Option (ℕ × List Char) :=
  let digits := cs.takeWhile fun c => digitVal c < radix
  if digits.length > max_digits then none
  else if digits = [] then none
  else if allow_zero_prefix = false ∧ digits.head? = some '0' ∧ digits.length > 1 then none
  else
    some (digits.foldl (fun n c => n * radix + digitVal c) 0,
      cs.dropWhile fun c => digitVal c < radix)

/-- A number of an IPv4 address. -/
def read_octet (cs : List Char) : Option (ℕ × List Char) :=
  (read_number 10 3 false cs).bind fun r => if r.1 < 256 then some r else none

/-- `Parser::read_given_char`. -/
def read_given_char (c : Char) : List Char → Option (List Char)
  | c' :: cs => if c' = c then some cs else none
  | [] => none

/-- `Parser::read_ipv4_addr`: the four numbers. -/
def read_ipv4_addr (cs : List Char) : Option (List ℕ × List Char) := do
  let (a, cs) ← read_octet cs
  let cs ← read_given_char '.' cs
  let (b, cs) ← read_octet cs
  let cs ← read_given_char '.' cs
  let (c, cs) ← read_octet cs
  let cs ← read_given_char '.' cs
  let (d, cs) ← read_octet cs
  return ([a, b, c, d], cs)

/-- Two groups of two octets. -/
def groupsOf : List ℕ → List ℕ
  | [a, b, c, d] => [a * 256 + b, c * 256 + d]
  | _ => []

/-- `read_groups`: at most so many groups, whether the last two are an IPv4
address, and what comes after. There is a colon before each group but the
first. -/
def read_groups : ℕ → Bool → List Char → List ℕ × Bool × List Char
  | 0, _, cs => ([], false, cs)
  | n + 1, first, cs =>
    match if first then some cs else read_given_char ':' cs with
    | none => ([], false, cs)
    | some group =>
      -- an IPv4 address takes two groups
      match if 0 < n then read_ipv4_addr group else none with
      | some (octets, rest) => (groupsOf octets, true, rest)
      | none =>
        match read_number 16 4 true group with
        | none => ([], false, cs)
        | some (g, rest) =>
          let later := read_groups n false rest
          (g :: later.1, later.2)

/-- `Parser::read_ipv6_addr`: the eight groups. -/
def read_ipv6_addr (cs : List Char) : Option (List ℕ × List Char) :=
  match read_groups 8 true cs with
  | (head, head_ipv4, rest) =>
    if head.length = 8 then some (head, rest)
    else if head_ipv4 then none
    else do
      let rest ← read_given_char ':' rest
      let rest ← read_given_char ':' rest
      let tail := read_groups (8 - (head.length + 1)) true rest
      return (head ++ List.replicate (8 - head.length - tail.1.length) 0 ++ tail.1, tail.2.2)

/-! ## What is read -/

variable {cs rest : List Char} {n : ℕ}

/-- A number is the digits at the head. -/
theorem read_number_eq {radix max_digits : ℕ} {zero : Bool}
    (h : read_number radix max_digits zero cs = some (n, rest)) :
    ∃ digits, digits ≠ [] ∧ (∀ c ∈ digits, digitVal c < radix) ∧ cs = digits ++ rest := by
  unfold read_number at h
  dsimp only at h
  split_ifs at h with hlong hempty hzero
  obtain ⟨-, rfl⟩ := Prod.mk.inj (Option.some.inj h)
  refine ⟨_, hempty, fun c hc => ?_, (List.takeWhile_append_dropWhile).symm⟩
  simpa using List.mem_takeWhile_imp hc

theorem read_octet_eq (h : read_octet cs = some (n, rest)) :
    ∃ digits, digits ≠ [] ∧ (∀ c ∈ digits, digitVal c < 10) ∧ cs = digits ++ rest := by
  obtain ⟨⟨m, rest'⟩, hnumber, h⟩ := Option.bind_eq_some_iff.1 h
  obtain ⟨-, h⟩ := Option.ite_none_right_eq_some.1 h
  cases h
  exact read_number_eq hnumber

theorem read_given_char_eq {c : Char} (h : read_given_char c cs = some rest) : cs = c :: rest := by
  unfold read_given_char at h
  split at h
  · obtain ⟨rfl, hrest⟩ := Option.ite_none_right_eq_some.1 h
    rw [Option.some.inj hrest]
  · cases h

/-- **The characters of an IPv4 address** are digits and dots, and there is
a dot. -/
theorem read_ipv4_addr_eq {octets : List ℕ} (h : read_ipv4_addr cs = some (octets, rest)) :
    ∃ text, cs = text ++ rest ∧ '.' ∈ text ∧ octets.length = 4 ∧
      ∀ c ∈ text, digitVal c < 10 ∨ c = '.' := by
  unfold read_ipv4_addr at h
  simp only [Option.bind_eq_bind, Option.bind_eq_some_iff, Option.pure_def, Option.some.injEq,
    Prod.exists, Prod.mk.injEq] at h
  obtain ⟨a, cs₁, ha, cs₂, h₁, b, cs₃, hb, cs₄, h₂, c, cs₅, hc, cs₆, h₃, d, cs₇, hd, rfl, rfl⟩ := h
  obtain ⟨da, -, hda, rfl⟩ := read_octet_eq ha
  obtain rfl := read_given_char_eq h₁
  obtain ⟨db, -, hdb, rfl⟩ := read_octet_eq hb
  obtain rfl := read_given_char_eq h₂
  obtain ⟨dc, -, hdc, rfl⟩ := read_octet_eq hc
  obtain rfl := read_given_char_eq h₃
  obtain ⟨dd, -, hdd, rfl⟩ := read_octet_eq hd
  refine ⟨da ++ '.' :: (db ++ '.' :: (dc ++ '.' :: dd)), by simp, by simp, rfl, fun c hc => ?_⟩
  simp only [List.mem_append, List.mem_cons] at hc
  rcases hc with hc | rfl | hc | rfl | hc | rfl | hc
  · exact .inl (hda c hc)
  · exact .inr rfl
  · exact .inl (hdb c hc)
  · exact .inr rfl
  · exact .inl (hdc c hc)
  · exact .inr rfl
  · exact .inl (hdd c hc)

/-- **An IPv6 address begins** with a group, or with nothing, before its
first colon. -/
theorem read_ipv6_addr_eq {groups : List ℕ} (h : read_ipv6_addr cs = some (groups, rest)) :
    ∃ group after, (∀ c ∈ group, digitVal c < 16) ∧ cs = group ++ ':' :: after := by
  unfold read_ipv6_addr read_groups at h
  simp only [if_true] at h
  cases hv4 : (if 0 < 7 then read_ipv4_addr cs else none) with
  | some r =>
    -- no IPv4 address can be at the head
    obtain ⟨octets, after⟩ := r
    obtain ⟨-, -, -, hlength, -⟩ := read_ipv4_addr_eq (Option.ite_none_right_eq_some.1 hv4).2
    have hgroups : (groupsOf octets).length ≠ 8 := by
      unfold groupsOf
      split <;> simp
    rw [hv4] at h
    simp only [if_neg hgroups, if_true] at h
    cases h
  | none =>
    simp only [hv4] at h
    cases hnumber : read_number 16 4 true cs with
    | none =>
      simp only [hnumber, List.length_nil] at h
      rw [if_neg (by decide), if_neg (by decide)] at h
      obtain ⟨after, hcolon, -⟩ := Option.bind_eq_some_iff.1 h
      exact ⟨[], after, fun c hc => absurd hc List.not_mem_nil, read_given_char_eq hcolon⟩
    | some r =>
      obtain ⟨g, after⟩ := r
      obtain ⟨digits, -, hdigits, rfl⟩ := read_number_eq hnumber
      simp only [hnumber] at h
      cases hcolon : read_given_char ':' after with
      | some after' => exact ⟨digits, after', hdigits, by rw [read_given_char_eq hcolon]⟩
      | none =>
        -- one group alone, and then there must be a colon
        have hone : read_groups 7 false after = ([], false, after) := by
          unfold read_groups
          simp only [hcolon, Bool.false_eq_true, if_false]
        rw [hone] at h
        simp only [List.length_cons, List.length_nil] at h
        rw [if_neg (by decide), if_neg (by decide), hcolon] at h
        cases h

/-! ## What an address is written with -/

/-- A hexadecimal digit, a colon or a dot. -/
def IsAddrChar (c : Char) : Prop := digitVal c < 16 ∨ c = ':' ∨ c = '.'

/-- What is read in between is written with these. -/
def Takes (cs rest : List Char) : Prop := ∃ text, cs = text ++ rest ∧ ∀ c ∈ text, IsAddrChar c

theorem Takes.refl (cs : List Char) : Takes cs cs :=
  ⟨[], rfl, fun _ hc => absurd hc List.not_mem_nil⟩

theorem Takes.trans {cs' : List Char} (h : Takes cs cs') (h' : Takes cs' rest) : Takes cs rest := by
  obtain ⟨text, rfl, htext⟩ := h
  obtain ⟨text', rfl, htext'⟩ := h'
  refine ⟨text ++ text', by rw [List.append_assoc], fun c hc => ?_⟩
  exact (List.mem_append.1 hc).elim (htext c) (htext' c)

theorem takes_read_given_char (h : read_given_char ':' cs = some rest) : Takes cs rest :=
  ⟨[':'], read_given_char_eq h, fun _ hc => .inr (.inl (List.mem_singleton.1 hc))⟩

theorem takes_read_ipv4_addr {octets : List ℕ} (h : read_ipv4_addr cs = some (octets, rest)) :
    Takes cs rest := by
  obtain ⟨text, rfl, -, -, htext⟩ := read_ipv4_addr_eq h
  refine ⟨text, rfl, fun c hc => (htext c hc).imp (fun hdigit => ?_) .inr⟩
  exact Nat.lt_trans hdigit (by decide)

/-- **So are groups.** -/
theorem takes_read_groups {first v4 : Bool} {groups : List ℕ}
    (h : read_groups n first cs = (groups, v4, rest)) : Takes cs rest := by
  induction n generalizing first cs groups with
  | zero =>
    cases h
    exact .refl _
  | succ n ih =>
    unfold read_groups at h
    split at h
    · cases h
      exact .refl _
    · next group hstart =>
      have hcolon : Takes cs group := by
        cases first with
        | true =>
          obtain rfl := Option.some.inj hstart
          exact .refl _
        | false => exact takes_read_given_char hstart
      split at h
      · next octets after hv4 =>
        cases h
        exact hcolon.trans (takes_read_ipv4_addr (Option.ite_none_right_eq_some.1 hv4).2)
      · split at h
        · cases h
          exact .refl _
        · next g after hnumber =>
          obtain ⟨digits, -, hdigits, rfl⟩ := read_number_eq hnumber
          have hlater : Takes after rest :=
            ih (Prod.ext rfl (Prod.mk.inj h).2 : read_groups n false after = (_, v4, rest))
          exact (hcolon.trans ⟨digits, rfl, fun c hc => .inl (hdigits c hc)⟩).trans hlater

/-- **An IPv6 address is written with hexadecimal digits, colons and dots.** -/
theorem takes_read_ipv6_addr {groups : List ℕ} (h : read_ipv6_addr cs = some (groups, rest)) :
    Takes cs rest := by
  unfold read_ipv6_addr at h
  cases hgroups : read_groups 8 true cs with
  | mk head r =>
    obtain ⟨head_ipv4, after⟩ := r
    have hhead := takes_read_groups hgroups
    simp only [hgroups] at h
    split_ifs at h with hfull hv4
    · cases h
      exact hhead
    · simp only [Option.bind_eq_bind, Option.bind_eq_some_iff, Option.pure_def, Option.some.injEq,
        Prod.mk.injEq] at h
      obtain ⟨cs₁, h₁, cs₂, h₂, -, rfl⟩ := h
      exact ((hhead.trans (takes_read_given_char h₁)).trans (takes_read_given_char h₂)).trans
        (takes_read_groups rfl)

end AigisZero.IpText
