import Mathlib.Data.List.Basic

/-!
# Machines and their runs

A machine is a partial step function: an action is enabled at a state
when the step answers with the next one. A run is a list of actions
taken in order, and what can be said of every state of a run is reached
by one step lemma and one of the rules below.
-/

namespace AigisZero

/-- **A machine**: what each action makes of a state, where it is
enabled. The scheduler and the environment choose the actions, so the
nondeterminism of a run is the choice of the list. -/
structure Machine (σ α : Type*) where
  /-- The state the action leads to, when it is enabled. -/
  step : σ → α → Option σ

namespace Machine

variable {σ α : Type*} (M : Machine σ α)

/-- The state a list of actions leads to, when each is enabled in turn. -/
def run : σ → List α → Option σ
  | s, [] => some s
  | s, a :: l => (M.step s a).bind fun t => run t l

/-- Some run leads from the one state to the other. -/
def Reaches (s t : σ) : Prop := ∃ l, M.run s l = some t

/-- `P` holds of every state the run passes through, its first and its
last included. -/
def Always (P : σ → Prop) : σ → List α → Prop
  | s, [] => P s
  | s, a :: l => P s ∧ ∀ t, M.step s a = some t → Always P t l

/-- `G` holds of every step the run takes: of the action and of the state
it is taken from. -/
def EveryStep (G : σ → α → Prop) : σ → List α → Prop
  | _, [] => True
  | s, a :: l => G s a ∧ ∀ t, M.step s a = some t → EveryStep G t l

variable {M} {P I : σ → Prop} {G : σ → α → Prop} {s t u : σ} {a : α} {l l' : List α}

@[simp] theorem run_nil : M.run s [] = some s := rfl

@[simp] theorem run_cons : M.run s (a :: l) = (M.step s a).bind fun t => M.run t l := rfl

/-- A run of one action is the step. -/
theorem run_singleton : M.run s [a] = M.step s a := by
  simp only [run_cons]
  cases M.step s a <;> rfl

/-- **Runs compose.** -/
theorem run_append : M.run s (l ++ l') = (M.run s l).bind fun t => M.run t l' := by
  induction l generalizing s with
  | nil => rfl
  | cons a l ih =>
    simp only [List.cons_append, run_cons]
    cases M.step s a with
    | none => rfl
    | some t => exact ih

theorem run_append_of (h : M.run s l = some t) : M.run s (l ++ l') = M.run t l' := by
  rw [run_append, h]; rfl

/-- The first step of a run, and the rest. -/
theorem run_cons_eq_some : M.run s (a :: l) = some u ↔
    ∃ t, M.step s a = some t ∧ M.run t l = some u := by
  rw [run_cons, Option.bind_eq_some_iff]

/-- A machine that can always step runs any list of actions. -/
theorem exists_run_of_total (htotal : ∀ s a, ∃ t, M.step s a = some t) (s : σ) (l : List α) :
    ∃ t, M.run s l = some t := by
  induction l generalizing s with
  | nil => exact ⟨s, rfl⟩
  | cons a l ih =>
    obtain ⟨t, ht⟩ := htotal s a
    obtain ⟨u, hu⟩ := ih t
    exact ⟨u, run_cons_eq_some.2 ⟨t, ht, hu⟩⟩

namespace Reaches

protected theorem refl : M.Reaches s s := ⟨[], rfl⟩

protected theorem trans (h : M.Reaches s t) (h' : M.Reaches t u) : M.Reaches s u := by
  obtain ⟨l, hl⟩ := h
  obtain ⟨l', hl'⟩ := h'
  exact ⟨l ++ l', by rw [run_append_of hl, hl']⟩

theorem step (h : M.step s a = some t) : M.Reaches s t := ⟨[a], by rw [run_singleton, h]⟩

end Reaches

/-! ## Invariants -/

/-- **The invariant rule.** What every step preserves, every run
preserves. -/
theorem run_preserves (hstep : ∀ s a t, I s → M.step s a = some t → I t)
    (h : M.run s l = some t) (hs : I s) : I t := by
  induction l generalizing s with
  | nil => exact Option.some.inj h ▸ hs
  | cons a l ih =>
    obtain ⟨u, hu, hrun⟩ := run_cons_eq_some.1 h
    exact ih hrun (hstep s a u hs hu)

theorem Reaches.preserves (hstep : ∀ s a t, I s → M.step s a = some t → I t)
    (h : M.Reaches s t) (hs : I s) : I t := by
  obtain ⟨l, hl⟩ := h
  exact run_preserves hstep hl hs

/-- **The guarded invariant rule.** What every step meeting the guard
preserves holds all along a run whose steps meet it. -/
theorem always_of_everyStep (hstep : ∀ s a t, I s → G s a → M.step s a = some t → I t)
    (hs : I s) (hG : M.EveryStep G s l) : M.Always I s l := by
  induction l generalizing s with
  | nil => exact hs
  | cons a l ih => exact ⟨hs, fun t ht => ih (hstep s a t hs hG.1 ht) (hG.2 t ht)⟩

/-- No guard at all is met. -/
theorem everyStep_true : M.EveryStep (fun _ _ => True) s l := by
  induction l generalizing s with
  | nil => trivial
  | cons a l ih => exact ⟨trivial, fun t _ => ih⟩

/-- Actions that meet the guard anywhere. -/
theorem everyStep_of_forall (h : ∀ a ∈ l, ∀ s, G s a) : M.EveryStep G s l := by
  induction l generalizing s with
  | nil => trivial
  | cons a l ih =>
    exact ⟨h a List.mem_cons_self s, fun t _ => ih fun b hb => h b (List.mem_cons_of_mem _ hb)⟩

/-- A run that meets a guard meets any that it implies where the invariant
holds. -/
theorem EveryStep.imp_of {G' : σ → α → Prop}
    (hI : ∀ s a t, I s → G s a → M.step s a = some t → I t)
    (himp : ∀ s a, I s → G s a → G' s a) (hs : I s) (h : M.EveryStep G s l) :
    M.EveryStep G' s l := by
  induction l generalizing s with
  | nil => trivial
  | cons a l ih => exact ⟨himp s a hs h.1, fun t ht => ih (hI s a t hs h.1 ht) (h.2 t ht)⟩

/-- A run that meets a guard meets a weaker one. -/
theorem EveryStep.imp {G' : σ → α → Prop} (himp : ∀ s a, G s a → G' s a)
    (h : M.EveryStep G s l) : M.EveryStep G' s l :=
  imp_of (I := fun _ => True) (fun _ _ _ _ _ _ => trivial) (fun s a _ hG => himp s a hG) trivial h

/-- A step that meets the guard, and then a run that does. -/
theorem everyStep_cons (h : M.step s a = some t) (hG : G s a) (hl : M.EveryStep G t l) :
    M.EveryStep G s (a :: l) := by
  refine ⟨hG, fun u hu => ?_⟩
  obtain rfl : t = u := Option.some.inj (h.symm.trans hu)
  exact hl

/-- What holds all along a run holds where it starts. -/
theorem Always.head (h : M.Always P s l) : P s := by
  cases l with
  | nil => exact h
  | cons a l => exact h.1

/-- What holds all along a run holds where it ends. -/
theorem Always.last (h : M.Always P s l) (hrun : M.run s l = some t) : P t := by
  induction l generalizing s with
  | nil => exact Option.some.inj hrun ▸ h
  | cons a l ih =>
    obtain ⟨u, hu, hrun⟩ := run_cons_eq_some.1 hrun
    exact ih (h.2 u hu) hrun

theorem Always.imp (himp : ∀ s, P s → I s) (h : M.Always P s l) : M.Always I s l := by
  induction l generalizing s with
  | nil => exact himp s h
  | cons a l ih => exact ⟨himp s h.1, fun t ht => ih (h.2 t ht)⟩

/-- **The exact rule, under a guard.** Where one step that the environment
allows keeps `P` exactly when it meets the guard, a run of such steps keeps
`P` in all its states exactly when all of them meet it. The invariant `I`
is what the step lemma may assume besides. -/
theorem always_iff_everyStep_of {E : σ → α → Prop}
    (hI : ∀ s a t, I s → E s a → M.step s a = some t → I t)
    (hstep : ∀ s a t, I s → P s → E s a → M.step s a = some t → (P t ↔ G s a))
    (hs : I s) (hP : P s) (hE : M.EveryStep E s l) (hrun : M.run s l = some u) :
    M.Always P s l ↔ M.EveryStep G s l := by
  induction l generalizing s with
  | nil => exact iff_of_true hP trivial
  | cons a l ih =>
    obtain ⟨t, ht, hrun⟩ := run_cons_eq_some.1 hrun
    have hkey := hstep s a t hs hP hE.1 ht
    constructor
    · rintro ⟨-, h⟩
      have hPt : P t := (h t ht).head
      refine ⟨hkey.1 hPt, fun t' ht' => ?_⟩
      obtain rfl : t = t' := Option.some.inj (ht.symm.trans ht')
      exact (ih (hI s a t hs hE.1 ht) hPt (hE.2 t ht) hrun).1 (h t ht)
    · rintro ⟨hG, h⟩
      refine ⟨hP, fun t' ht' => ?_⟩
      obtain rfl : t = t' := Option.some.inj (ht.symm.trans ht')
      exact (ih (hI s a t hs hE.1 ht) (hkey.2 hG) (hE.2 t ht) hrun).2 (h t ht)

/-- **The exact rule.** Where one step keeps `P` exactly when it meets
the guard, a run keeps `P` in all its states exactly when all its steps
meet it. -/
theorem always_iff_everyStep (hI : ∀ s a t, I s → M.step s a = some t → I t)
    (hstep : ∀ s a t, I s → P s → M.step s a = some t → (P t ↔ G s a))
    (hs : I s) (hP : P s) (hrun : M.run s l = some u) :
    M.Always P s l ↔ M.EveryStep G s l :=
  always_iff_everyStep_of (fun s a t h _ ht => hI s a t h ht)
    (fun s a t h hP _ ht => hstep s a t h hP ht) hs hP everyStep_true hrun

/-- **The counting rule.** Where a count never goes down, and a step
leaves it alone exactly when it meets the guard, a run leaves it alone
exactly when all its steps meet it. -/
theorem count_eq_iff_everyStep {count : σ → ℕ} (hI : ∀ s a t, I s → M.step s a = some t → I t)
    (hmono : ∀ s a t, I s → M.step s a = some t → count s ≤ count t)
    (hstep : ∀ s a t, I s → M.step s a = some t → (count t = count s ↔ G s a))
    (hs : I s) (hrun : M.run s l = some u) : count u = count s ↔ M.EveryStep G s l := by
  induction l generalizing s with
  | nil =>
    obtain rfl := Option.some.inj hrun
    exact iff_of_true rfl trivial
  | cons a l ih =>
    obtain ⟨t, ht, hrun⟩ := run_cons_eq_some.1 hrun
    have hle : count t ≤ count u :=
      (run_preserves (I := fun v => I v ∧ count t ≤ count v)
        (fun v b w hv hw => ⟨hI v b w hv.1 hw, Nat.le_trans hv.2 (hmono v b w hv.1 hw)⟩) hrun
        ⟨hI s a t hs ht, Nat.le_refl _⟩).2
    have hfirst := hstep s a t hs ht
    have hrest := ih (hI s a t hs ht) hrun
    have hless := hmono s a t hs ht
    constructor
    · intro heq
      exact everyStep_cons ht (hfirst.1 (by omega)) (hrest.1 (by omega))
    · rintro ⟨hG, hl⟩
      rw [hrest.2 (hl t ht), hfirst.2 hG]

/-! ## Progress -/

/-- **The progress rule.** Where every state short of the goal has an
action of a kind that brings it nearer, some run of such actions reaches
the goal. -/
theorem exists_run_of_progress {ι : Type*} {r : ι → ι → Prop} (hwf : WellFounded r)
    (rank : σ → ι) {A : α → Prop} {goal : σ → Prop}
    (hstep : ∀ s, I s → ¬ goal s → ∃ a t, A a ∧ M.step s a = some t ∧ I t ∧ r (rank t) (rank s))
    (hs : I s) : ∃ l t, (∀ a ∈ l, A a) ∧ M.run s l = some t ∧ goal t := by
  induction h : rank s using hwf.induction generalizing s with
  | h n ih =>
    by_cases hgoal : goal s
    · exact ⟨[], s, fun a ha => absurd ha List.not_mem_nil, rfl, hgoal⟩
    · obtain ⟨a, t, hA, ht, hI, hless⟩ := hstep s hs hgoal
      obtain ⟨l, u, hl, hu, hgoal⟩ := ih (rank t) (h ▸ hless) hI rfl
      refine ⟨a :: l, u, ?_, run_cons_eq_some.2 ⟨t, ht, hu⟩, hgoal⟩
      intro b hb
      rcases List.mem_cons.1 hb with rfl | hb
      · exact hA
      · exact hl b hb

/-! ## Crashes -/

/-- An action of a machine, or a crash. -/
inductive OrCrash (α : Type*) where
  | act (a : α)
  | crash

/-- **A machine that can crash at any point**, and starts again from what
survives. -/
def crashing (M : Machine σ α) (restart : σ → σ) : Machine σ (OrCrash α) where
  step s
    | .act a => M.step s a
    | .crash => some (restart s)

/-! ## Records -/

/-- **A machine whose actions say more** than its steps look at. -/
def comap {β : Type*} (M : Machine σ α) (act : β → α) : Machine σ β where
  step s b := M.step s (act b)

/-- **A machine with a record beside it.** The record is written at each
step, from the state before it, the action and the state after it, and no
step reads it. -/
def recorded {ρ : Type*} (M : Machine σ α) (note : σ → α → σ → ρ → ρ) : Machine (σ × ρ) α where
  step s a := (M.step s.1 a).map fun t => (t, note s.1 a t s.2)

section Recorded

variable {ρ : Type*} {note : σ → α → σ → ρ → ρ} {r : ρ} {t' : σ × ρ}

theorem recorded_step_eq_some : (M.recorded note).step (s, r) a = some t' ↔
    ∃ t, M.step s a = some t ∧ t' = (t, note s a t r) := by
  show (M.step s a).map (fun t => (t, note s a t r)) = some t' ↔ _
  rw [Option.map_eq_some_iff]
  exact exists_congr fun t => and_congr_right fun _ => eq_comm

/-- Every run has its record. -/
theorem exists_recorded_run (h : M.run s l = some t) (r : ρ) :
    ∃ r', (M.recorded note).run (s, r) l = some (t, r') := by
  induction l generalizing s r with
  | nil => exact ⟨r, congrArg (fun x => some (x, r)) (Option.some.inj h)⟩
  | cons a l ih =>
    obtain ⟨u, hu, hrun⟩ := run_cons_eq_some.1 h
    obtain ⟨r', hr'⟩ := ih hrun (note s a u r)
    exact ⟨r', run_cons_eq_some.2 ⟨_, recorded_step_eq_some.2 ⟨u, hu, rfl⟩, hr'⟩⟩

end Recorded

/-! ## What a run gathers -/

/-- What the steps of a run bring, in their order. -/
def gathered {β : Type*} (M : Machine σ α) (brought : σ → α → List β) : σ → List α → List β
  | _, [] => []
  | s, a :: l => brought s a ++ ((M.step s a).map fun t => gathered M brought t l).getD []

/-- **What a run gathers some step of it brings**, from the state the run is
in by then. -/
theorem mem_gathered {β : Type*} {brought : σ → α → List β} {b : β} (h : M.run s l = some t) :
    b ∈ M.gathered brought s l ↔
      ∃ before a after u, l = before ++ a :: after ∧ M.run s before = some u ∧ b ∈ brought u a := by
  induction l generalizing s with
  | nil =>
    refine iff_of_false List.not_mem_nil ?_
    rintro ⟨before, a, after, u, hl, -⟩
    exact List.append_ne_nil_of_right_ne_nil _ (List.cons_ne_nil _ _) hl.symm
  | cons c l ih =>
    obtain ⟨v, hv, hrun⟩ := run_cons_eq_some.1 h
    rw [gathered, hv, Option.map_some, Option.getD_some, List.mem_append, ih hrun]
    constructor
    · rintro (hb | ⟨before, a, after, u, rfl, hbefore, hb⟩)
      · exact ⟨[], c, l, s, rfl, rfl, hb⟩
      · exact ⟨c :: before, a, after, u, rfl, run_cons_eq_some.2 ⟨v, hv, hbefore⟩, hb⟩
    · rintro ⟨before, a, after, u, hl, hbefore, hb⟩
      cases before with
      | nil =>
        obtain ⟨rfl, rfl⟩ := List.cons.inj hl
        obtain rfl := Option.some.inj hbefore
        exact .inl hb
      | cons d before =>
        obtain ⟨rfl, rfl⟩ := List.cons.inj hl
        obtain ⟨v', hv', hbefore⟩ := run_cons_eq_some.1 hbefore
        obtain rfl := Option.some.inj (hv.symm.trans hv')
        exact .inr ⟨before, a, after, u, rfl, hbefore, hb⟩

/-- **The rule of queues.** Where each step takes elements out of a line and
puts what it brings at its end, the line after a run is what was in it, and
behind that what the run gathers, less what was taken out. -/
theorem run_line {β : Type*} {brought : σ → α → List β} {line : σ → List β}
    (hstep : ∀ s a t, M.step s a = some t → (line t).Sublist (line s ++ brought s a))
    (hrun : M.run s l = some t) : (line t).Sublist (line s ++ M.gathered brought s l) := by
  induction l generalizing s with
  | nil =>
    obtain rfl := Option.some.inj hrun
    exact List.sublist_append_left _ _
  | cons a l ih =>
    obtain ⟨u, hu, hrun⟩ := run_cons_eq_some.1 hrun
    rw [gathered, hu, Option.map_some, Option.getD_some, ← List.append_assoc]
    exact (ih hrun).trans ((hstep s a u hu).append (List.Sublist.refl _))

/-- **The accounting rule.** Where no step adds more to what is spent than
it adds to what is earned and what it brings are worth, no run does. -/
theorem run_accounts {β : Type*} {brought : σ → α → List β} (spent earned : σ → ℕ)
    (worth : List β → ℕ) (hworth : ∀ k k', worth (k ++ k') = worth k + worth k')
    (hstep : ∀ s a t, M.step s a = some t →
      spent t + earned s ≤ spent s + earned t + worth (brought s a))
    (hrun : M.run s l = some t) :
    spent t + earned s ≤ spent s + earned t + worth (M.gathered brought s l) := by
  induction l generalizing s with
  | nil =>
    obtain rfl := Option.some.inj hrun
    exact Nat.le_add_right _ _
  | cons a l ih =>
    obtain ⟨u, hu, hrun⟩ := run_cons_eq_some.1 hrun
    have hhere := hstep s a u hu
    have hrest := ih hrun
    rw [gathered, hu, Option.map_some, Option.getD_some, hworth]
    omega

/-! ## Simulations -/

/-- **The simulation rule.** Where each step that meets the guard keeps a
relation to what a function makes of its action, so does a run of them. -/
theorem simulates_run {τ : Type*} {R : σ → τ → Prop} {f : τ → α → τ} {q : τ}
    (hstep : ∀ s q a t, R s q → G s a → M.step s a = some t → R t (f q a))
    (hG : M.EveryStep G s l) (hrun : M.run s l = some t) (hs : R s q) : R t (l.foldl f q) := by
  induction l generalizing s q with
  | nil => exact Option.some.inj hrun ▸ hs
  | cons a l ih =>
    obtain ⟨u, hu, hrun⟩ := run_cons_eq_some.1 hrun
    exact ih (hG.2 u hu) hrun (hstep s q a u hs hG.1 hu)

/-! ## Views -/

/-- **The rule of views.** Where the actions that are seen move the view as
they would by themselves, and the others leave it alone as long as `Q` holds
of it, a run moves the view as the actions that are seen do. -/
theorem view_run {β ν : Type*} {low : α → Option β} {view : σ → ν} {update : ν → β → ν}
    {R : β → Prop} {Q : ν → Prop}
    (hseen : ∀ s a t b, low a = some b → R b → M.step s a = some t →
      view t = update (view s) b)
    (hunseen : ∀ s a t, low a = none → Q (view s) → M.step s a = some t → view t = view s)
    (hR : ∀ b ∈ l.filterMap low, R b)
    (hQ : ∀ p, p <+: l.filterMap low → Q (p.foldl update (view s)))
    (hrun : M.run s l = some u) : view u = (l.filterMap low).foldl update (view s) := by
  induction l generalizing s with
  | nil => exact congrArg view (Option.some.inj hrun).symm
  | cons a l ih =>
    obtain ⟨t, ht, hrun⟩ := run_cons_eq_some.1 hrun
    cases hlow : low a with
    | none =>
      have hview := hunseen s a t hlow (hQ [] List.nil_prefix) ht
      rw [List.filterMap_cons_none hlow] at hR hQ ⊢
      rw [ih hR (hview ▸ hQ) hrun, hview]
    | some b =>
      rw [List.filterMap_cons_some hlow] at hR hQ ⊢
      have hview := hseen s a t b hlow (hR b List.mem_cons_self) ht
      rw [List.foldl_cons, ← hview]
      refine ih (fun b' hb' => hR b' (List.mem_cons_of_mem _ hb')) (fun p hp => ?_) hrun
      have hQp := hQ (b :: p) (List.cons_prefix_cons.2 ⟨rfl, hp⟩)
      rwa [List.foldl_cons, ← hview] at hQp

end Machine

end AigisZero
