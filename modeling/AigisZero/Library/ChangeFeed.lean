import Mathlib.Data.Finset.Basic
import Mathlib.Data.Finset.Lattice.Lemmas
import Mathlib.Data.Finset.Dedup

/-!
# Change feeds

A set told to a consumer through its changes: the whole of it, what was
added, what was removed. A feed is sound when nothing is added that the
consumer has and nothing removed that it has not.
-/

namespace AigisZero

variable {α : Type*}

/-- One change, with the elements in the order they are told. -/
inductive Change (α : Type*) where
  | replace (l : List α)
  | add (l : List α)
  | remove (l : List α)

namespace Change

variable [DecidableEq α]

/-- What the consumer makes of a change. -/
def apply (s : Finset α) : Change α → Finset α
  | replace l => l.toFinset
  | add l => s ∪ l.toFinset
  | remove l => s \ l.toFinset

/-- The change tells the consumer nothing it has, and takes nothing it has
not. -/
def Sound (s : Finset α) : Change α → Prop
  | replace _ => True
  | add l => l.Nodup ∧ Disjoint l.toFinset s
  | remove l => l.Nodup ∧ l.toFinset ⊆ s

/-- The set a consumer ends with. -/
def replay (s : Finset α) (feed : List (Change α)) : Finset α := feed.foldl apply s

/-- Each change of the feed is sound where it is told. -/
def SoundFrom (s : Finset α) : List (Change α) → Prop
  | [] => True
  | c :: feed => c.Sound s ∧ SoundFrom (c.apply s) feed

variable {s t : Finset α} {feed feed' : List (Change α)} {added removed : List α}

theorem replay_append : replay s (feed ++ feed') = replay (replay s feed) feed' :=
  List.foldl_append

theorem soundFrom_append : SoundFrom s (feed ++ feed') ↔
    SoundFrom s feed ∧ SoundFrom (replay s feed) feed' := by
  induction feed generalizing s with
  | nil => exact (and_iff_right trivial).symm
  | cons c feed ih => simp only [List.cons_append, SoundFrom, ih, and_assoc]; rfl

/-- The changes from the one set to the other, each told only where it is
not empty. -/
def difference (added removed : List α) : List (Change α) :=
  (if added.isEmpty then [] else [add added]) ++ if removed.isEmpty then [] else [remove removed]

/-- What an empty difference leaves out changes nothing. -/
theorem replay_difference :
    replay s (difference added removed) = (s ∪ added.toFinset) \ removed.toFinset := by
  cases added <;> cases removed <;> simp [difference, replay, apply]

/-- **The difference of two sets leads from the one to the other.** -/
theorem replay_difference_eq (hadded : added.toFinset = t \ s)
    (hremoved : removed.toFinset = s \ t) :
    replay s (difference added removed) = t := by
  rw [replay_difference, hadded, hremoved]
  ext a
  simp only [Finset.mem_sdiff, Finset.mem_union]
  tauto

/-- The difference of two sets is sound. -/
theorem soundFrom_difference (hnodup : added.Nodup) (hnodup' : removed.Nodup)
    (hadded : added.toFinset = t \ s) (hremoved : removed.toFinset = s \ t) :
    SoundFrom s (difference added removed) := by
  have hdisjoint : Disjoint added.toFinset s := hadded ▸ Finset.sdiff_disjoint
  have hsub : removed.toFinset ⊆ s ∪ added.toFinset :=
    hremoved ▸ Finset.sdiff_subset.trans Finset.subset_union_left
  unfold difference
  by_cases ha : added.isEmpty
  · have hnil : added.toFinset = ∅ := by simp [List.isEmpty_iff.1 ha]
    rw [hnil, Finset.union_empty] at hsub
    by_cases hr : removed.isEmpty <;> simp [ha, hr, SoundFrom, Sound, hnodup', hsub]
  · by_cases hr : removed.isEmpty <;>
      simp [ha, hr, SoundFrom, Sound, apply, hnodup, hnodup', hdisjoint, hsub]

/-! ## Feeds in another order -/

/-- It does not matter which of two changes comes first. -/
def Commutes (c d : Change α) : Prop :=
  ∀ s : Finset α, apply (apply s c) d = apply (apply s d) c

theorem Commutes.symm {c d : Change α} (h : Commutes c d) : Commutes d c := fun s => (h s).symm

/-- The two changes of a difference commute. -/
theorem pairwise_commutes_difference (hadded : added.toFinset = t \ s)
    (hremoved : removed.toFinset = s \ t) : (difference added removed).Pairwise Commutes := by
  have hcommutes : Commutes (add added) (remove removed) := by
    intro u
    simp only [apply, hadded, hremoved]
    ext a
    simp only [Finset.mem_sdiff, Finset.mem_union]
    tauto
  unfold difference
  cases added.isEmpty <;> cases removed.isEmpty <;> simp [hcommutes]

end Change

end AigisZero
