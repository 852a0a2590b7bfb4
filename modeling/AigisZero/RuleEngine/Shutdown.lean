import AigisZero.RuleEngine.Commit

/-!
# What a shutdown loses

On a shutdown each task empties its own channel and leaves, and nothing
makes them leave in turn. An event put on its channel after the scanner's
last look is lost, and so is an alert that is sent, or still on its
channel, when the batcher leaves. This file counts the losses of a run and
says which runs have none.
-/

namespace AigisZero.RuleEngine

namespace Pipeline

/-- The alerts let through that were not lost, in their order. -/
def held (s : Pipeline) (r : Ledger) : List Checked :=
  r.handed.flatten ++ s.waiting ++ s.alerts ++ s.inHand

/-- **A step loses no alert**: the scanner sends to a batcher that is
there, and the batcher leaves an empty channel. -/
def KeepsAlerts (s : Pipeline) : PipelineAction → Prop
  | .send => s.batcher ≠ .exited
  | .answer _ => s.batcher = .flushing true → s.alerts = []
  | _ => True

/-- What a step adds to the alerts let through is held, with what was held
before; and nothing is lost exactly when the step keeps the alerts. -/
def Accounts (s : Pipeline) (r : Ledger) (a : PipelineAction) (t : Pipeline) (r' : Ledger) : Prop :=
  ∃ new, r'.released = r.released ++ new ∧ (t.held r').Sublist (s.held r ++ new) ∧
    ((t.held r').length = (s.held r ++ new).length ↔ s.KeepsAlerts a)

variable {codec : JsonCodec} {yara : YaraX} {hash : Uuid → ℕ} {config : PipelineConfig}
  {s t : Pipeline} {r r' : Ledger} {a : PipelineAction}

/-- A step that moves alerts along, and lets some through, loses none. -/
theorem accounts_of_eq (new : List Checked) (hreleased : r'.released = r.released ++ new)
    (hheld : t.held r' = s.held r ++ new) (hkeeps : s.KeepsAlerts a) : Accounts s r a t r' :=
  ⟨new, hreleased, hheld ▸ List.Sublist.refl _, iff_of_true (congrArg List.length hheld) hkeeps⟩

/-- A step that leaves the alerts alone loses none. -/
theorem accounts_of_frame (halerts : t.alerts = s.alerts) (hwaiting : t.waiting = s.waiting)
    (hinHand : t.inHand = s.inHand) (hkeeps : s.KeepsAlerts a) : Accounts s r a t r := by
  refine accounts_of_eq [] (List.append_nil _).symm ?_ hkeeps
  rw [List.append_nil, held, held, halerts, hwaiting, hinHand]

theorem accounts_check (ht : s.check hash = some t) :
    Accounts s r .check t (Ledger.note s .check t r) := by
  obtain ⟨alert, rest, hscanner, ⟨-, rfl⟩ | ⟨-, rfl⟩⟩ := check_eq_some ht
  · refine accounts_of_eq [⟨alert, s.now⟩] rfl ?_ trivial
    simp only [held, inHand, hscanner, List.append_nil, Ledger.note]
    rfl
  · exact accounts_of_frame rfl rfl (by simp only [inHand, hscanner]) trivial

/-- A send to a batcher that is gone loses the alert. -/
theorem accounts_send (ht : s.send config = some t) :
    Accounts s r .send t (Ledger.note s .send t r) := by
  obtain ⟨item, rest, hscanner, ⟨hexited, rfl⟩ | ⟨hrunning, -, rfl⟩⟩ := send_eq_some ht
  · have hheld : s.held r = r.handed.flatten ++ s.waiting ++ s.alerts ++ [item] := by
      simp only [held, inHand, hscanner]
    have hafter : held { s with scanner := .checking rest }
        (Ledger.note s .send { s with scanner := .checking rest } r) =
        r.handed.flatten ++ s.waiting ++ s.alerts := by
      simp only [held, inHand, Ledger.note, hscanner, if_pos hexited, List.append_nil, waiting]
    refine ⟨[], ?_, ?_, iff_of_false (fun heq => ?_) fun hne => hne hexited⟩
    · simp only [Ledger.note, hscanner, if_pos hexited, List.append_nil]
    · rw [hafter, hheld, List.append_nil]
      exact List.sublist_append_left _ _
    · rw [hafter, hheld, List.append_nil] at heq
      simp only [List.length_append, List.length_singleton] at heq
      omega
  · refine accounts_of_eq [] ?_ ?_ hrunning
    · simp only [Ledger.note, hscanner, if_neg hrunning, List.append_nil]
    · simp only [held, inHand, Ledger.note, hscanner, if_neg hrunning, List.append_nil, waiting,
        List.append_assoc]

theorem accounts_take (ht : s.take config = some t) :
    Accounts s r .take t (Ledger.note s .take t r) := by
  obtain ⟨item, rest, halerts, ⟨hbatcher, rfl⟩ | ⟨hbatcher, rfl⟩⟩ := take_eq_some ht
  · by_cases hflush : config.batch_max_size ≤ (s.buffer ++ [item]).length ∨
        config.batch_flush_interval ≤ s.now - s.last_flush
    · simp only [if_pos hflush]
      refine accounts_of_eq [] (List.append_nil _).symm ?_ trivial
      simp only [held, waiting, inHand, Ledger.note, Ledger.hand, hbatcher, halerts,
        List.flatten_append, List.flatten_singleton, List.append_nil, List.append_assoc,
        List.singleton_append]
    · simp only [if_neg hflush]
      refine accounts_of_eq [] (List.append_nil _).symm ?_ trivial
      simp only [held, waiting, inHand, Ledger.note, Ledger.hand, hbatcher, halerts,
        List.append_nil, List.append_assoc, List.singleton_append]
  · refine accounts_of_eq [] ?_ ?_ trivial
    · simp only [Ledger.note, Ledger.hand, hbatcher, List.append_nil]
    · simp only [held, waiting, inHand, Ledger.note, Ledger.hand, hbatcher, halerts,
        List.append_nil, List.append_assoc, List.singleton_append]

theorem accounts_expire (ht : s.expire config = some t) :
    Accounts s r .expire t (Ledger.note s .expire t r) := by
  obtain ⟨hbatcher, ⟨-, rfl⟩ | rfl⟩ := expire_eq_some ht
  · refine accounts_of_eq [] (List.append_nil _).symm ?_ trivial
    simp only [held, waiting, inHand, Ledger.note, Ledger.hand, hbatcher, List.flatten_append,
      List.flatten_singleton, List.append_nil, List.append_assoc]
  · have hnote : Ledger.note t .expire t r = r := by simp only [Ledger.note, Ledger.hand, hbatcher]
    rw [hnote]
    exact accounts_of_frame rfl rfl rfl trivial

theorem accounts_drained (ht : s.drained = some t) :
    Accounts s r .drained t (Ledger.note s .drained t r) := by
  obtain ⟨hbatcher, halerts, ⟨hbuffer, rfl⟩ | ⟨-, rfl⟩⟩ := drained_eq_some ht
  · refine accounts_of_frame halerts.symm ?_ rfl trivial
    simp only [exit, waiting, hbatcher, hbuffer]
  · refine accounts_of_eq [] (List.append_nil _).symm ?_ trivial
    simp only [held, waiting, inHand, Ledger.note, Ledger.hand, hbatcher, List.flatten_append,
      List.flatten_singleton, List.append_nil, List.append_assoc]

/-- The last answer loses what has come meanwhile. -/
theorem accounts_answer {storage : Storage} (ht : s.answer storage = some t) :
    Accounts s r (.answer storage) t (Ledger.note s (.answer storage) t r) := by
  have hconfirm : (s.confirm storage).alerts = s.alerts ∧
      (s.confirm storage).scanner = s.scanner := by
    unfold confirm
    split <;> exact ⟨rfl, rfl⟩
  obtain ⟨halerts, hscanner⟩ := hconfirm
  have hnote : ∀ u, (Ledger.note s (.answer storage) u r).handed = r.handed ∧
      (Ledger.note s (.answer storage) u r).released = r.released := by
    intro u
    simp only [Ledger.note]
    split <;> exact ⟨rfl, rfl⟩
  rcases answer_eq_some ht with ⟨hbatcher, rfl⟩ | ⟨hbatcher, rfl⟩
  · have hheld : s.held r = r.handed.flatten ++ (s.alerts ++ s.inHand) := by
      simp only [held, waiting, hbatcher, List.append_nil, List.append_assoc]
    have hafter : ((s.confirm storage).exit).held
        (Ledger.note s (.answer storage) (s.confirm storage).exit r) =
        r.handed.flatten ++ s.inHand := by
      simp only [held, (hnote _).1, exit, waiting, inHand, hscanner, List.append_nil]
    refine ⟨[], by rw [(hnote _).2, List.append_nil], ?_, ?_⟩
    · rw [hafter, hheld, List.append_nil]
      exact (List.Sublist.refl _).append (List.sublist_append_right _ _)
    · rw [hafter, hheld, List.append_nil]
      simp only [List.length_append, KeepsAlerts, hbatcher, true_imp_iff]
      rw [← List.length_eq_zero_iff]
      omega
  · refine accounts_of_eq [] (by rw [(hnote _).2, List.append_nil]) ?_ fun hlast => ?_
    · simp only [held, (hnote _).1, waiting, inHand, hscanner, halerts, hbatcher, List.append_nil]
    · rw [hbatcher] at hlast
      cases hlast

/-- **Every step accounts for the alerts.** -/
theorem accounts_step (ht : (machine codec yara hash config).step s a = some t) :
    Accounts s r a t (Ledger.note s a t r) := by
  cases a with
  | tick _ | cancel | offer _ | consumerExit =>
    obtain ⟨_, _, _, _, -, -, rfl⟩ := outside_eq_some ht rfl
    exact accounts_of_frame rfl rfl rfl trivial
  | receive current draw =>
    obtain ⟨event, rest, pc, hscanner, -, hpc, rfl⟩ := receive_eq_some ht
    refine accounts_of_frame rfl rfl ?_ trivial
    rcases hpc with rfl | ⟨alerts, rfl⟩ <;> simp only [inHand, hscanner]
  | scannerShutdown =>
    obtain ⟨-, ht⟩ := Option.ite_none_right_eq_some.1 ht
    obtain rfl := Option.some.inj ht
    exact accounts_of_frame rfl rfl rfl trivial
  | scannerExit =>
    obtain ⟨hscanner, -, -, rfl⟩ := scannerExit_eq_some ht
    exact accounts_of_frame rfl rfl (by simp only [inHand, hscanner]) trivial
  | check => exact accounts_check ht
  | finish =>
    obtain ⟨hscanner, ht⟩ := Option.ite_none_right_eq_some.1 ht
    obtain rfl := Option.some.inj ht
    exact accounts_of_frame rfl rfl (by simp only [inHand, hscanner]) trivial
  | send => exact accounts_send ht
  | take => exact accounts_take ht
  | expire => exact accounts_expire ht
  | batcherShutdown =>
    obtain ⟨⟨hbatcher, -⟩, ht⟩ := Option.ite_none_right_eq_some.1 ht
    obtain rfl := Option.some.inj ht
    exact accounts_of_frame rfl (by simp only [waiting, hbatcher]) rfl trivial
  | drained => exact accounts_drained ht
  | answer storage => exact accounts_answer ht

end Pipeline

namespace Engine

/-- All three tasks are gone. -/
def AllExited (s : Engine) : Prop :=
  s.consumer = .exited ∧ s.receiving = false ∧ s.core.batcher = .exited

/-- **A step loses nothing**: the scanner lets go of an empty channel, it
sends to a batcher that is there, and the batcher leaves an empty
channel. -/
def LosesNothing (s : Engine) : EngineAction → Prop
  | .letGo => s.queued = []
  | .pipeline a => s.core.KeepsAlerts a
  | _ => True

/-- **What every state of a session keeps**: the events evaluated or on
their channel were put on it, the alerts held were let through, and a
batcher that is gone has left nothing behind. -/
structure Kept (s : Engine) : Prop where
  aligned : Aligned s
  events : (s.scanned ++ s.queued).Sublist s.enqueued
  alerts : (s.core.held s.ledger).Sublist s.ledger.released
  idle : s.core.batcher = .exited → s.core.alerts = [] ∧ s.core.buffer = []

variable {reader : EventReader} {yara : YaraX} {hash : Uuid → ℕ} {config : EngineConfig}
  {log : TypedLog} {s t : Engine} {a : EngineAction}

end Engine

end AigisZero.RuleEngine
