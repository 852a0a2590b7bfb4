import AigisZero.Agent.Isolation
import Mathlib.Data.List.Infix

/-!
# What `unisolated` says of the host

The handler answers `unisolated` where `de_isolate` returns `Ok`, and that
is where `nft` deleted the table or said that it could not, in words that
are taken to mean there was none. But whatever the kernel refuses, `nft`
reports in these words. So the answer is true of the host exactly as long
as `nft` deletes the table whenever there is one.
-/

namespace AigisZero.Agent

variable {φ : Type*}

/-! ## Looking for the table -/

/-- How a run of `nft list table` goes. -/
inductive NftList where
  | unexecuted (e : String)
  | exited (success : Bool) (stderr : Bytes)

/-- `IsolationManager::is_isolated`. -/
def is_isolated : NftList → Except String Bool
  | .unexecuted _ => .error "Failed to execute nft command"
  | .exited success _ => .ok success

/-- A table is listed only where there is one. -/
def NftList.Finds (list : NftList) (s : Host φ) : Prop :=
  ∀ stderr, list = .exited true stderr → s.isolation ≠ none

/-! ## What is claimed -/

/-- The answer of the handler to a command, beside the host. -/
abbrev Answered (φ : Type*) := Host φ × Option (Except String Json)

/-- The answer to the last command. -/
def noteAnswer (_ : Host φ) (a : HostAction φ) (_ : Host φ)
    (answer : Option (Except String Json)) : Option (Except String Json) :=
  match a with
  | .command command load delete => some (handle command load delete)
  | _ => answer

/-- **The host and what the handler last answered.** -/
def answering [DecidableEq φ] (mgr : IsolationManager) : Machine (Answered φ) (HostAction φ) :=
  (Host.machine mgr).recorded noteAnswer

/-- **`unisolated` is true**: where the handler last answered it, there is
no table, and `is_isolated` does not find one. -/
def UnisolatedTrue (s : Answered φ) : Prop :=
  s.2 = some (.ok (.obj [("status", .str "unisolated")])) →
    s.1.isolation = none ∧ ∀ list : NftList, list.Finds s.1 → is_isolated list ≠ .ok true

/-- `nft` fails to delete a table that is there as it reports whatever the
kernel refuses. -/
def RefusalReported (s : Answered φ) : HostAction φ → Prop
  | .command (some (.Isolate false _)) _ (.exited false stderr) =>
    s.1.isolation ≠ none →
      containsText (fromUtf8Lossy stderr) "Error: Could not process rule: " = true
  | _ => True

/-- No table stays that `nft` was to delete. -/
def DeletesTable (s : Answered φ) : HostAction φ → Prop
  | .command (some (.Isolate false _)) _ (.exited false _) => s.1.isolation = none
  | _ => True

/-! ## The words of a refusal -/

theorem containsText_iff {text part : String} :
    containsText text part = true ↔ part.toList <:+: text.toList := by
  unfold containsText
  rw [List.any_eq_true, List.infix_iff_prefix_suffix]
  constructor
  · rintro ⟨rest, hrest, hpre⟩
    exact ⟨rest, List.isPrefixOf_iff_prefix.1 hpre, (List.mem_tails _ _).1 hrest⟩
  · rintro ⟨rest, hpre, hrest⟩
    exact ⟨rest, (List.mem_tails _ _).2 hrest, List.isPrefixOf_iff_prefix.2 hpre⟩

/-- **A refusal is taken for a table that is not there.** -/
theorem de_isolate_of_refusal {stderr : Bytes}
    (h : containsText (fromUtf8Lossy stderr) "Error: Could not process rule: " = true) :
    de_isolate (.exited false stderr) = .ok () := by
  have hlower : containsText (fromUtf8Lossy stderr).toLower "could not process rule" = true := by
    rw [containsText_iff] at h ⊢
    have hmap := h.map Char.toLower
    have htext : (fromUtf8Lossy stderr).toLower.toList =
        (fromUtf8Lossy stderr).toList.map Char.toLower := String.toList_map
    have hpart : "could not process rule".toList <:+:
        "Error: Could not process rule: ".toList.map Char.toLower := by decide
    rw [htext]
    exact hpart.trans hmap
  unfold de_isolate
  simp only [hlower, Bool.not_true, Bool.and_false]
  rfl

/-! ## A command -/

theorem unisolatedTrue_of_ne {s : Answered φ} {answer : Except String Json}
    (h : s.2 = some answer) (hne : answer ≠ .ok (.obj [("status", .str "unisolated")])) :
    UnisolatedTrue s := by
  intro hlast
  rw [h] at hlast
  exact absurd (Option.some.inj hlast) hne

theorem unisolatedTrue_of_none {s : Answered φ} (h : s.1.isolation = none) : UnisolatedTrue s := by
  intro _
  refine ⟨h, fun list hfinds hfound => ?_⟩
  cases list with
  | unexecuted e => cases hfound
  | exited success stderr =>
    obtain rfl : success = true := Except.ok.inj hfound
    exact hfinds stderr rfl h

/-- An isolation is never answered as `unisolated`. -/
theorem handle_isolate_ne (reason : String) (load : NftLoad) (delete : NftDelete) :
    handle (some (.Isolate true reason)) load delete ≠
      .ok (.obj [("status", .str "unisolated")]) := by
  unfold handle
  intro h
  cases hload : isolate load with
  | error e =>
    rw [hload] at h
    cases h
  | ok u =>
    rw [hload] at h
    exact absurd (Except.ok.inj h) (by simp)

variable [DecidableEq φ] {mgr : IsolationManager} {s t : Answered φ} {a : HostAction φ}

/-- **`unisolated` is answered to the command that is carried out, to one
that finds no table, and to one that is refused.** -/
theorem unisolatedTrue_deIsolate_iff {reason : String} {load : NftLoad} {delete : NftDelete}
    (hreport : RefusalReported s (.command (some (.Isolate false reason)) load delete))
    (ht : (answering mgr).step s (.command (some (.Isolate false reason)) load delete) = some t) :
    UnisolatedTrue t ↔ DeletesTable s (.command (some (.Isolate false reason)) load delete) := by
  obtain ⟨host, answer⟩ := s
  obtain ⟨u, hu, rfl⟩ := Machine.recorded_step_eq_some.1 ht
  have hcommand : host.command mgr (some (.Isolate false reason)) load delete = some u := hu
  cases delete with
  | unexecuted e =>
    refine iff_of_true (unisolatedTrue_of_ne rfl ?_) trivial
    intro h
    cases h
  | exited success stderr =>
    cases success with
    | true =>
      refine iff_of_true (unisolatedTrue_of_none ?_) trivial
      rcases Host.command_eq_some hcommand with ⟨_, _, h, -⟩ | ⟨_, -, -, rfl⟩ | ⟨rfl, -⟩
      · cases h
      · rfl
      · -- what is deleted was there
        unfold Host.command at hcommand
        cases hisolation : u.isolation with
        | none => rfl
        | some table =>
          simp only [NftDelete.applied, hisolation, if_true] at hcommand
          have hsame := congrArg Host.isolation (Option.some.inj hcommand)
          rw [hisolation] at hsame
          cases hsame
    | false =>
      obtain rfl : host = u := Option.some.inj hcommand
      constructor
      · intro htrue
        by_contra hthere
        have hok := de_isolate_of_refusal (hreport hthere)
        refine hthere (htrue ?_).1
        show some (handle _ _ _) = _
        unfold handle
        rw [hok]
        rfl
      · intro hnone
        exact unisolatedTrue_of_none hnone

/-- **A step keeps `unisolated` true exactly when it leaves no table that
it was to delete.** -/
theorem unisolatedTrue_step_iff (hs : UnisolatedTrue s) (hreport : RefusalReported s a)
    (ht : (answering mgr).step s a = some t) : UnisolatedTrue t ↔ DeletesTable s a := by
  obtain ⟨host, answer⟩ := s
  obtain ⟨u, hu, rfl⟩ := Machine.recorded_step_eq_some.1 ht
  cases a with
  | packet hook p state related =>
    have hpacket : host.packet hook p state related = some u := hu
    refine iff_of_true ?_ trivial
    have hsame : u.isolation = host.isolation := by
      rcases (Host.packet_eq_some hpacket).2 with ⟨-, rfl⟩ | rfl
      · rfl
      · rfl
    unfold UnisolatedTrue NftList.Finds at hs ⊢
    simp only [hsame]
    exact hs
  | forget keep =>
    obtain rfl := Option.some.inj hu
    exact iff_of_true hs trivial
  | reconfigure others =>
    obtain rfl := Option.some.inj hu
    exact iff_of_true hs trivial
  | command command load delete =>
    match command with
    | none =>
      refine iff_of_true (unisolatedTrue_of_ne rfl ?_) trivial
      intro h
      cases h
    | some (.Isolate true reason) =>
      exact iff_of_true (unisolatedTrue_of_ne rfl (handle_isolate_ne reason load delete)) trivial
    | some (.Isolate false reason) => exact unisolatedTrue_deIsolate_iff hreport ht
    | some .ConfigUpdate =>
      refine iff_of_true (unisolatedTrue_of_ne rfl ?_) trivial
      exact fun h => absurd (Except.ok.inj h) (by simp)
    | some (.Ack sequence_id) =>
      refine iff_of_true (unisolatedTrue_of_ne rfl ?_) trivial
      exact fun h => absurd (Except.ok.inj h) (by simp)

/-- **`unisolated` is true in every state of a run exactly when `nft`
deletes the table whenever it is told to and there is one.** -/
theorem unisolatedTrue_iff (mgr : IsolationManager) (host : Host φ) (l : List (HostAction φ))
    (hrun : (answering mgr).run (host, none) l = some t)
    (hreport : (answering mgr).EveryStep RefusalReported (host, none) l) :
    (answering mgr).Always UnisolatedTrue (host, none) l ↔
      (answering mgr).EveryStep DeletesTable (host, none) l := by
  refine Machine.always_iff_everyStep_of (I := fun _ => True) (fun _ _ _ _ _ _ => trivial) ?_
    trivial (fun h => by cases h) hreport hrun
  intro s a t _ hs hE ht
  exact unisolatedTrue_step_iff hs hE ht

/-- What `nft` says to whoever may not change the tables. -/
def notPermitted : Bytes :=
  utf8 "Error: Could not process rule: Operation not permitted\ndelete table inet aigis_isolation\n"

/-- A host is isolated, and its isolation is to be lifted without the
privilege to. -/
def refusedUnisolation : List (HostAction ℕ) :=
  [.command (some (.Isolate true "malware")) (.exited true []) (.unexecuted ""),
    .command (some (.Isolate false "")) (.exited true []) (.exited false notPermitted)]

/-- **A refused deletion is answered as `unisolated`**, and the table
stays. -/
theorem not_unisolatedTrue_refused :
    (answering Host.smallManager).EveryStep RefusalReported ((Host.boot [] : Host ℕ), none)
        refusedUnisolation ∧
      ¬ (answering Host.smallManager).Always UnisolatedTrue ((Host.boot [] : Host ℕ), none)
        refusedUnisolation := by
  have hreport : containsText (fromUtf8Lossy notPermitted) "Error: Could not process rule: " =
      true := by decide
  constructor
  · refine Machine.everyStep_cons rfl trivial (Machine.everyStep_cons rfl (fun _ => hreport) ?_)
    trivial
  · intro h
    have hok : de_isolate (.exited false notPermitted) = .ok () := de_isolate_of_refusal hreport
    have hlast : (answering Host.smallManager).run ((Host.boot [] : Host ℕ), none)
        refusedUnisolation = some _ := rfl
    have hnone := (h.last hlast (by show some (handle _ _ _) = _; unfold handle; rw [hok]; rfl)).1
    cases hnone

/-- A host is isolated, and its isolation is lifted. -/
theorem unisolatedTrue_iff_lifted :
    (answering Host.smallManager).Always UnisolatedTrue ((Host.boot [] : Host ℕ), none)
        ([.command (some (.Isolate true "malware")) (.exited true []) (.unexecuted ""),
          .command (some (.Isolate false "")) (.exited true []) (.exited true [])] :
          List (HostAction ℕ)) ↔
      (answering Host.smallManager).EveryStep DeletesTable ((Host.boot [] : Host ℕ), none)
        [.command (some (.Isolate true "malware")) (.exited true []) (.unexecuted ""),
          .command (some (.Isolate false "")) (.exited true []) (.exited true [])] :=
  unisolatedTrue_iff Host.smallManager (Host.boot []) _ rfl
    (Machine.everyStep_cons rfl trivial (Machine.everyStep_cons rfl trivial trivial))

end AigisZero.Agent
