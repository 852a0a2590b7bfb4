import Mathlib.Data.Int.Notation
import Mathlib.Data.List.Forall2
import Mathlib.Tactic.Common

/-!
# Packet filters

Base chains and the tables they come from, as netfilter has them: a packet
passes a hook if every base chain there accepts it, and a table that is
loaded again has its rules appended to the chains it has. Connection
tracking knows the flows that packets were accepted of, and those related
to them.
-/

namespace AigisZero.Netfilter

/-- Where packets meet the filters. -/
inductive Hook where
  | input
  | output
  | forward
deriving DecidableEq, Repr

/-- What a chain makes of a packet. -/
inductive Verdict where
  | accept
  | drop
deriving DecidableEq, Repr

/-- What conntrack makes of a packet. -/
inductive CtState where
  | new
  | established
  | related
  | invalid
  | untracked
deriving DecidableEq, Repr

/-- A base chain, as its hook sees it. -/
structure BaseChain (π : Type*) where
  hook : Hook
  verdict : π → Verdict

/-- **A packet passes a hook** if every base chain there accepts it. -/
def Passes {π : Type*} (chains : List (BaseChain π)) (hook : Hook) (p : π) : Prop :=
  ∀ c ∈ chains, c.hook = hook → c.verdict p = .accept

instance {π : Type*} (chains : List (BaseChain π)) (hook : Hook) (p : π) :
    Decidable (Passes chains hook p) :=
  inferInstanceAs (Decidable (∀ c ∈ chains, c.hook = hook → c.verdict p = .accept))

/-! ## Tables -/

/-- A rule decides about the packets that meet all its expressions. -/
structure Rule (ε : Type*) where
  exprs : List ε
  verdict : Verdict
deriving DecidableEq, Repr

/-- A base chain as it is written: the first rule that matches decides, and
where none does the policy. -/
structure Chain (ε : Type*) where
  name : String
  hook : Hook
  priority : ℤ
  policy : Verdict
  rules : List (Rule ε)
deriving DecidableEq, Repr

/-- A table. -/
structure Table (ε : Type*) where
  family : String
  name : String
  chains : List (Chain ε)
deriving DecidableEq, Repr

variable {ε π : Type*}

/-- The rule matches. -/
def Rule.Matches (holds : ε → π → Bool) (r : Rule ε) (p : π) : Bool := r.exprs.all (holds · p)

/-- The verdict of a chain. -/
def Chain.eval (holds : ε → π → Bool) (c : Chain ε) (p : π) : Verdict :=
  match c.rules.find? (·.Matches holds p) with
  | some r => r.verdict
  | none => c.policy

/-- The chain at its hook. -/
def Chain.base (holds : ε → π → Bool) (c : Chain ε) : BaseChain π := ⟨c.hook, c.eval holds⟩

/-- A chain is declared: the rules are appended to those the chain of its
name has. One of another hook or priority is refused. -/
def addChain (c : Chain ε) : List (Chain ε) → Option (List (Chain ε))
  | [] => some [c]
  | d :: rest =>
    if d.name = c.name then
      if d.hook = c.hook ∧ d.priority = c.priority then
        some ({ d with policy := c.policy, rules := d.rules ++ c.rules } :: rest)
      else none
    else (addChain c rest).map (d :: ·)

/-- All chains of a table are declared, or nothing happens. -/
def addChains : List (Chain ε) → List (Chain ε) → Option (List (Chain ε))
  | [], ds => some ds
  | c :: cs, ds => (addChain c ds).bind (addChains cs)

/-- **A table is loaded** over the one of its name, if there is one. -/
def Table.load (t : Table ε) : Option (Table ε) → Option (Table ε)
  | none => some t
  | some old => (addChains t.chains old.chains).map fun chains => { old with chains := chains }

/-- The chain is as it is declared, with no rule that is not declared. -/
structure Chain.Copy (c d : Chain ε) : Prop where
  name : d.name = c.name
  hook : d.hook = c.hook
  priority : d.priority = c.priority
  policy : d.policy = c.policy
  rules : ∀ r ∈ d.rules, r ∈ c.rules

/-- The chains of a table are as they are declared. -/
def Table.Copy (t u : Table ε) : Prop := List.Forall₂ Chain.Copy t.chains u.chains

theorem Chain.Copy.refl (c : Chain ε) : c.Copy c := ⟨rfl, rfl, rfl, rfl, fun _ => id⟩

theorem Table.Copy.refl (t : Table ε) : t.Copy t :=
  List.forall₂_same.2 fun c _ => Chain.Copy.refl c

/-- A chain that is declared again stays as it is declared. -/
theorem Chain.Copy.again {c d : Chain ε} (h : c.Copy d) :
    c.Copy { d with policy := c.policy, rules := d.rules ++ c.rules } :=
  ⟨h.name, h.hook, h.priority, rfl, fun r hr => (List.mem_append.1 hr).elim (h.rules r) id⟩

theorem addChain_copies {cs ds : List (Chain ε)} {c : Chain ε} (h : List.Forall₂ Chain.Copy cs ds)
    (hnames : (cs.map Chain.name).Nodup) (hc : c ∈ cs) :
    ∃ ds', addChain c ds = some ds' ∧ List.Forall₂ Chain.Copy cs ds' := by
  induction h with
  | nil => cases hc
  | @cons c' d cs ds hcopy htail ih =>
    obtain ⟨hfresh, hnames⟩ := List.nodup_cons.1 hnames
    unfold addChain
    by_cases hname : d.name = c.name
    · -- names are distinct, so this is the chain that is declared
      have hsame : c = c' := by
        rcases List.mem_cons.1 hc with rfl | hc
        · rfl
        · exact absurd (List.mem_map.2 ⟨c, hc, hname.symm.trans hcopy.name⟩) hfresh
      subst hsame
      rw [if_pos hname, if_pos ⟨hcopy.hook, hcopy.priority⟩]
      exact ⟨_, rfl, .cons hcopy.again htail⟩
    · rcases List.mem_cons.1 hc with rfl | hc
      · exact absurd hcopy.name hname
      · obtain ⟨ds', hds, hcopies⟩ := ih hnames hc
        rw [if_neg hname, hds]
        exact ⟨_, rfl, .cons hcopy hcopies⟩

theorem addChains_copies {cs ds l : List (Chain ε)} (h : List.Forall₂ Chain.Copy cs ds)
    (hnames : (cs.map Chain.name).Nodup) (hl : ∀ c ∈ l, c ∈ cs) :
    ∃ ds', addChains l ds = some ds' ∧ List.Forall₂ Chain.Copy cs ds' := by
  induction l generalizing ds with
  | nil => exact ⟨ds, rfl, h⟩
  | cons c l ih =>
    obtain ⟨ds', hds, hcopies⟩ := addChain_copies h hnames (hl c List.mem_cons_self)
    obtain ⟨ds'', hds', hcopies⟩ := ih hcopies fun c hc => hl c (List.mem_cons_of_mem _ hc)
    exact ⟨ds'', by rw [addChains, hds, Option.bind_some, hds'], hcopies⟩

/-- **A table loaded any number of times is as it is declared**, and it can
be loaded once more. -/
theorem Table.load_copy {t u : Table ε} (h : t.Copy u) (hnames : (t.chains.map Chain.name).Nodup) :
    ∃ v, t.load (some u) = some v ∧ t.Copy v := by
  obtain ⟨chains, hchains, hcopies⟩ := addChains_copies h hnames fun _ => id
  exact ⟨{ u with chains := chains }, by rw [Table.load, hchains, Option.map_some], hcopies⟩

/-- What a chain with the policy to drop accepts, a rule of its declaration
matches. -/
theorem Chain.Copy.exists_rule {holds : ε → π → Bool} {c d : Chain ε} {p : π} (h : c.Copy d)
    (hpolicy : c.policy = .drop) (haccept : d.eval holds p = .accept) :
    ∃ r ∈ c.rules, ∀ e ∈ r.exprs, holds e p = true := by
  unfold Chain.eval at haccept
  split at haccept
  · next r hr =>
    have hmatches := List.find?_some hr
    exact ⟨r, h.rules r (List.mem_of_find?_eq_some hr), List.all_eq_true.1 hmatches⟩
  · rw [h.policy, hpolicy] at haccept
    cases haccept

/-- **What passes a hook matches a rule of each chain that drops by
default**, whatever other chains there are. -/
theorem exists_rule_of_passes {holds : ε → π → Bool} {t u : Table ε} {others : List (BaseChain π)}
    {c : Chain ε} {p : π} (h : t.Copy u) (hc : c ∈ t.chains) (hpolicy : c.policy = .drop)
    (hpasses : Passes (u.chains.map (Chain.base holds) ++ others) c.hook p) :
    ∃ r ∈ c.rules, ∀ e ∈ r.exprs, holds e p = true := by
  obtain ⟨i, hi, rfl⟩ := List.getElem_of_mem hc
  have hi' : i < u.chains.length := h.length_eq ▸ hi
  have hcopy : Chain.Copy t.chains[i] u.chains[i] := h.get hi hi'
  refine hcopy.exists_rule hpolicy (hpasses (u.chains[i].base holds) ?_ hcopy.hook)
  exact List.mem_append_left _ (List.mem_map_of_mem (List.getElem_mem hi'))

/-! ## Connection tracking -/

/-- What conntrack knows: the flows whose packets are established, and
those whose packets are related. -/
structure Conntrack (φ : Type*) where
  tracked : List φ
  expected : List φ

namespace Conntrack

variable {φ : Type*}

/-- Nothing is known. -/
def empty : Conntrack φ := ⟨[], []⟩

/-- A flow is known, in one way or the other. -/
def Knows (ct : Conntrack φ) (f : φ) : Prop := f ∈ ct.tracked ∨ f ∈ ct.expected

/-- The packets of a flow can be in a state. -/
def Allows (ct : Conntrack φ) (f : φ) : CtState → Prop
  | .established => f ∈ ct.tracked
  | .related => f ∈ ct.expected
  | _ => True

instance [DecidableEq φ] (ct : Conntrack φ) (f : φ) (state : CtState) :
    Decidable (ct.Allows f state) := by
  cases state <;> unfold Allows <;> infer_instance

/-- A packet of a flow is accepted; from now on some flows are related to
it. -/
def accept (ct : Conntrack φ) (f : φ) (related : List φ) : Conntrack φ :=
  ⟨f :: ct.tracked, related ++ ct.expected⟩

/-- Flows are forgotten. -/
def forget (ct : Conntrack φ) (keep : φ → Bool) : Conntrack φ :=
  ⟨ct.tracked.filter keep, ct.expected.filter keep⟩

/-- **A flow descends** from the roots among the accepted packets: it is
that of a root, or it was related to one that does. -/
inductive Descends {α : Type*} (flow : α → φ) (related : α → List φ) (root : α → Prop)
    (accepted : List α) : φ → Prop where
  | root {x : α} : x ∈ accepted → root x → Descends flow related root accepted (flow x)
  | related {x : α} {f : φ} : x ∈ accepted → Descends flow related root accepted (flow x) →
    f ∈ related x → Descends flow related root accepted f

variable {α : Type*} {flow : α → φ} {related : α → List φ} {root root' : α → Prop}
  {accepted accepted' : List α} {ct : Conntrack φ} {f : φ} {x : α}

/-- More packets and more roots take no descent away. -/
theorem Descends.mono (h : Descends flow related root accepted f)
    (hsub : ∀ x ∈ accepted, x ∈ accepted') (hroot : ∀ x ∈ accepted, root x → root' x) :
    Descends flow related root' accepted' f := by
  induction h with
  | root hx hx' => exact .root (hsub _ hx) (hroot _ hx hx')
  | related hx _ hf ih => exact .related (hsub _ hx) ih hf

/-- **What is known descends**, where a packet is accepted only if it is a
root or its flow descends. -/
theorem descends_accept (h : ∀ f, ct.Knows f → Descends flow related root accepted f)
    (hx : root x ∨ Descends flow related root accepted (flow x)) :
    ∀ f, (ct.accept (flow x) (related x)).Knows f →
      Descends flow related root (accepted ++ [x]) f := by
  have hmem : x ∈ accepted ++ [x] := List.mem_append_right _ (List.mem_singleton_self x)
  have hold : ∀ f, Descends flow related root accepted f →
      Descends flow related root (accepted ++ [x]) f :=
    fun f hf => hf.mono (fun y hy => List.mem_append_left _ hy) fun _ _ => id
  have hflow : Descends flow related root (accepted ++ [x]) (flow x) := by
    rcases hx with hroot | hdescends
    · exact .root hmem hroot
    · exact hold _ hdescends
  intro f hf
  rcases hf with hf | hf
  · rcases List.mem_cons.1 hf with rfl | hf
    · exact hflow
    · exact hold f (h f (.inl hf))
  · rcases List.mem_append.1 hf with hf | hf
    · exact .related hmem hflow hf
    · exact hold f (h f (.inr hf))

theorem Knows.of_forget {keep : φ → Bool} (h : (ct.forget keep).Knows f) : ct.Knows f :=
  h.imp (fun hf => (List.mem_filter.1 hf).1) fun hf => (List.mem_filter.1 hf).1

end Conntrack

end AigisZero.Netfilter
