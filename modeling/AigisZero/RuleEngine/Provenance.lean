import AigisZero.RuleEngine.Commit

/-!
# Where an alert comes from

An alert is raised for an event by a rule that matched it, and goes from
the scanner over the alert channel and the buffer of the batcher into the
store, or is lost on the way: suppressed, dropped at a shutdown, refused by
the database, gone with a crash. Queues all of them, so what is stored is
what was raised, in its order and never twice. And what was raised was
raised for an event that a message of a typed topic says, by a rule of the
category of the event.
-/

namespace AigisZero.RuleEngine

/-! ## The pipeline -/

/-- The alerts the scanner has still to check or to send. -/
def ScannerPc.unsent : ScannerPc → List Alert
  | checking alerts => alerts
  | sending item alerts => item.alert :: alerts
  | _ => []

namespace Pipeline

/-- The alerts stored, and behind them those that may yet be, the next one
first. -/
def line (s : Pipeline) : List Alert :=
  (s.stored ++ s.buffer ++ s.alerts).map Checked.alert ++ s.scanner.unsent

/-- The alerts a step raises: those of the event the scanner takes. -/
def raised (codec : JsonCodec) (yara : YaraX) (s : Pipeline) : PipelineAction → List Alert
  | .receive current draw =>
    match s.events with
    | event :: _ => (evaluate codec yara current event draw).toOption.getD []
    | [] => []
  | _ => []

variable {codec : JsonCodec} {yara : YaraX} {hash : Uuid → ℕ} {config : PipelineConfig}
  {s t : Pipeline} {a : PipelineAction}

/-- A step that leaves the batcher's side alone. -/
theorem line_of_scanner {new : List Alert} (hstored : t.stored = s.stored)
    (hbuffer : t.buffer = s.buffer) (halerts : t.alerts = s.alerts)
    (hscanner : t.scanner.unsent.Sublist (s.scanner.unsent ++ new)) :
    t.line.Sublist (s.line ++ new) := by
  rw [line, line, hstored, hbuffer, halerts, List.append_assoc _ s.scanner.unsent new]
  exact (List.Sublist.refl _).append hscanner

/-- A step that leaves the scanner alone. -/
theorem line_of_batcher (hscanner : t.scanner = s.scanner)
    (hchecked : (t.stored ++ t.buffer ++ t.alerts).Sublist (s.stored ++ s.buffer ++ s.alerts)) :
    t.line.Sublist (s.line ++ []) := by
  rw [line, line, hscanner, List.append_nil]
  exact (hchecked.map _).append (List.Sublist.refl _)

/-- The alerts of an event are next to be checked, where it can be
evaluated. -/
theorem line_receive {current : EngineRegistry} {draw : ℕ → AlertDraw}
    (ht : s.receive codec yara current draw = some t) :
    t.line.Sublist (s.line ++ s.raised codec yara (.receive current draw)) := by
  unfold receive at ht
  split at ht
  · next event rest hscanner hevents =>
    dsimp only at ht
    have hraised : s.raised codec yara (.receive current draw) =
        (evaluate codec yara current event draw).toOption.getD [] := by
      rw [raised, hevents]
    rw [hraised]
    split at ht
    · next alerts heval =>
      obtain rfl := Option.some.inj ht
      refine line_of_scanner rfl rfl rfl ?_
      rw [heval, hscanner]
      exact List.Sublist.refl _
    · obtain rfl := Option.some.inj ht
      exact line_of_scanner rfl rfl rfl (List.sublist_append_left _ _)
  · cases ht

/-- An alert that is checked is the next to be sent, or is suppressed. -/
theorem line_check (ht : s.check hash = some t) : t.line.Sublist (s.line ++ []) := by
  obtain ⟨alert, rest, hscanner, ⟨-, rfl⟩ | ⟨-, rfl⟩⟩ := check_eq_some ht
  · refine line_of_scanner rfl rfl rfl ?_
    rw [hscanner, List.append_nil]
    exact List.Sublist.refl _
  · refine line_of_scanner rfl rfl rfl ?_
    rw [hscanner, List.append_nil]
    exact List.sublist_cons_self _ _

/-- An alert that is sent is the last on its channel. -/
theorem line_send (ht : s.send config = some t) : t.line.Sublist (s.line ++ []) := by
  obtain ⟨item, rest, hscanner, ⟨-, rfl⟩ | ⟨-, -, rfl⟩⟩ := send_eq_some ht
  · refine line_of_scanner rfl rfl rfl ?_
    rw [hscanner, List.append_nil]
    exact List.sublist_cons_self _ _
  · rw [List.append_nil, line, line, hscanner]
    simp only [ScannerPc.unsent, List.map_append, List.map_cons, List.map_nil, List.append_assoc,
      List.nil_append, List.cons_append]
    exact List.Sublist.refl _

/-- An alert the batcher takes is the last of its buffer. -/
theorem line_take (ht : s.take config = some t) : t.line.Sublist (s.line ++ []) := by
  obtain ⟨item, rest, halerts, ⟨-, rfl⟩ | ⟨-, rfl⟩⟩ := take_eq_some ht
  · refine line_of_batcher rfl ?_
    rw [halerts]
    simp only [List.append_assoc, List.singleton_append]
    exact List.Sublist.refl _
  · refine line_of_batcher rfl ?_
    rw [halerts]
    simp only [List.append_assoc, List.singleton_append]
    exact List.Sublist.refl _

/-- A batch is stored, or gone. -/
theorem confirm_sublist (s : Pipeline) (storage : Storage) :
    (s.confirm storage).stored.Sublist (s.stored ++ s.buffer) ∧
      (s.confirm storage).alerts = s.alerts ∧ (s.confirm storage).scanner = s.scanner := by
  unfold confirm
  split
  · exact ⟨List.Sublist.refl _, rfl, rfl⟩
  · exact ⟨List.sublist_append_left _ _, rfl, rfl⟩

theorem line_answer {storage : Storage} (ht : s.answer storage = some t) :
    t.line.Sublist (s.line ++ []) := by
  obtain ⟨hstored, halerts, hscanner⟩ := s.confirm_sublist storage
  rcases answer_eq_some ht with ⟨-, rfl⟩ | ⟨-, rfl⟩
  · refine line_of_batcher hscanner ?_
    show ((s.confirm storage).stored ++ [] ++ []).Sublist _
    rw [List.append_nil, List.append_nil]
    exact hstored.trans (List.sublist_append_left _ _)
  · refine line_of_batcher hscanner ?_
    show ((s.confirm storage).stored ++ [] ++ (s.confirm storage).alerts).Sublist _
    rw [List.append_nil, halerts]
    exact hstored.append (List.Sublist.refl _)

/-- **Alerts stay in line**: a step raises alerts at the end of it, stores
what is at its head, and takes others out. -/
theorem line_step (ht : (machine codec yara hash config).step s a = some t) :
    t.line.Sublist (s.line ++ s.raised codec yara a) := by
  cases a with
  | receive current draw => exact line_receive ht
  | check => exact line_check ht
  | send => exact line_send ht
  | take => exact line_take ht
  | answer storage => exact line_answer ht
  | tick _ | cancel | offer _ | consumerExit =>
    obtain ⟨_, _, _, _, -, -, rfl⟩ := outside_eq_some ht rfl
    exact List.sublist_append_left _ _
  | scannerShutdown =>
    obtain ⟨-, ht⟩ := Option.ite_none_right_eq_some.1 ht
    obtain rfl := Option.some.inj ht
    exact List.sublist_append_left _ _
  | scannerExit =>
    obtain ⟨-, -, -, rfl⟩ := scannerExit_eq_some ht
    exact line_of_scanner rfl rfl rfl (List.nil_sublist _)
  | finish =>
    obtain ⟨-, ht⟩ := Option.ite_none_right_eq_some.1 ht
    obtain rfl := Option.some.inj ht
    exact line_of_scanner rfl rfl rfl (List.nil_sublist _)
  | expire =>
    obtain ⟨-, ⟨-, rfl⟩ | rfl⟩ := expire_eq_some ht
    · exact List.sublist_append_left _ _
    · exact List.sublist_append_left _ _
  | batcherShutdown =>
    obtain ⟨-, ht⟩ := Option.ite_none_right_eq_some.1 ht
    obtain rfl := Option.some.inj ht
    exact List.sublist_append_left _ _
  | drained =>
    obtain ⟨-, halerts, ⟨hbuffer, rfl⟩ | ⟨-, rfl⟩⟩ := drained_eq_some ht
    · refine line_of_batcher rfl ?_
      rw [halerts, hbuffer]
      exact List.Sublist.refl _
    · exact List.sublist_append_left _ _

end Pipeline

/-! ## What raises an alert -/

/-- **An alert is raised for an event**: a rule of the category of the
event matched the text that is scanned of it, and the alert is the one that
is built of the two. -/
def RaisedFor (codec : JsonCodec) (yara : YaraX) (current : EngineRegistry) (draw : ℕ → AlertDraw)
    (event : TelemetryEvent) (alert : Alert) : Prop :=
  ∃ rules matched i rule, current.rule_sets (category event) = some rules ∧
    yara.scan rules (extract_scannable_buffer codec event) = .ok matched ∧
    matched[i]? = some rule ∧ rule ∈ rules.rules ∧
    alert = build_alert event rule current.mitre (draw i)

/-- What the scanner finds in an event is raised for it. -/
theorem raisedFor_of_mem {codec : JsonCodec} {yara : YaraX} {current : EngineRegistry}
    {draw : ℕ → AlertDraw} {event : TelemetryEvent} {alert : Alert}
    (h : alert ∈ (evaluate codec yara current event draw).toOption.getD []) :
    RaisedFor codec yara current draw event alert := by
  unfold evaluate EngineRegistry.matching EngineRegistry.scanned at h
  cases hrules : current.rule_sets (category event) with
  | none =>
    rw [hrules] at h
    exact absurd h List.not_mem_nil
  | some rules =>
    rw [hrules] at h
    dsimp only at h
    by_cases hempty : (extract_scannable_buffer codec event).isEmpty = true
    · rw [if_pos hempty] at h
      exact absurd h List.not_mem_nil
    · rw [if_neg hempty] at h
      dsimp only at h
      cases hscan : yara.scan rules (extract_scannable_buffer codec event) with
      | error e =>
        rw [hscan] at h
        exact absurd h List.not_mem_nil
      | ok matched =>
        rw [hscan] at h
        obtain ⟨i, hi, rfl⟩ := List.mem_mapIdx.1 h
        exact ⟨rules, matched, i, matched[i], hrules, hscan, List.getElem?_eq_getElem hi,
          yara.scan_subset hscan (List.getElem_mem hi), rfl⟩

namespace Engine

/-- **An event was read from the log**: the message of its offset says
it. -/
def FromLog (reader : EventReader) (log : TypedLog) (delivery : Delivery) : Prop :=
  ∃ message, (log delivery.id.source)[delivery.id.offset]? = some message ∧
    TelemetryEvent.fromSlice reader.text reader.codec (message.getD []) = some delivery.event

/-- The alerts a step of the engine raises. -/
def raised (reader : EventReader) (yara : YaraX) (s : Engine) :
    Machine.OrCrash EngineAction → List Alert
  | .act (.pipeline a) => s.core.raised reader.codec yara a
  | _ => []

/-- The events in the hands of the consumer and on their channel were read
from the log. -/
structure ReadFrom (reader : EventReader) (log : TypedLog) (s : Engine) : Prop where
  aligned : Aligned s
  sending : ∀ delivery, s.consumer = .sending delivery → FromLog reader log delivery
  queued : ∀ delivery ∈ s.queued, FromLog reader log delivery

variable {reader : EventReader} {yara : YaraX} {hash : Uuid → ℕ} {config : EngineConfig}
  {log : TypedLog} {dedup : ShardedDeduplicator} {s t : Engine}

/-- A step that takes no event in hand, and puts none on the channel. -/
theorem ReadFrom.of_eq (hs : ReadFrom reader log s) (ht : Aligned t)
    (hconsumer : ∀ delivery, t.consumer ≠ .sending delivery)
    (hqueued : ∀ delivery ∈ t.queued, delivery ∈ s.queued) : ReadFrom reader log t :=
  ⟨ht, fun delivery h => absurd h (hconsumer delivery), fun d hd => hs.queued d (hqueued d hd)⟩

theorem ReadFrom.poll {source : TopicPartition} (hs : ReadFrom reader log s) (hal : Aligned t)
    (ht : s.poll reader log source = some t) : ReadFrom reader log t := by
  obtain ⟨-, message, hmessage, pc, rfl, hpc⟩ := poll_eq_some ht
  refine ⟨hal, fun delivery h => ?_, hs.queued⟩
  obtain rfl : pc = .sending delivery := h
  rcases hpc with ⟨-, hpolling⟩ | ⟨-, ⟨event, hevent, heq⟩ | hpoisoned⟩
  · cases hpolling
  · cases heq
    exact ⟨message, hmessage, hevent⟩
  · cases hpoisoned

theorem ReadFrom.enqueue (hs : ReadFrom reader log s) (hal : Aligned t)
    (ht : s.enqueue config = some t) : ReadFrom reader log t := by
  obtain ⟨delivery, hconsumer, ⟨-, rfl⟩ | ⟨-, -, rfl⟩⟩ := enqueue_eq_some ht
  · exact hs.of_eq hal (fun _ h => (by cases h)) fun _ => id
  · refine ⟨hal, fun _ h => (by cases h), fun d hd => ?_⟩
    rcases List.mem_append.1 hd with hd | hd
    · exact hs.queued d hd
    · exact List.mem_singleton.1 hd ▸ hs.sending delivery hconsumer

theorem readFrom_session {a : EngineAction} (hs : ReadFrom reader log s)
    (ht : (session reader yara hash config log).step s a = some t) : ReadFrom reader log t := by
  have hal := aligned_step hs.aligned ht
  cases a with
  | poll source => exact hs.poll hal ht
  | enqueue => exact hs.enqueue hal ht
  | streamError =>
    obtain ⟨-, rfl⟩ := streamError_eq_some ht
    exact hs
  | streamEnd =>
    obtain ⟨-, rfl⟩ := streamEnd_eq_some ht
    exact hs.of_eq hal (fun _ h => (by cases h)) fun _ => id
  | consumerShutdown =>
    obtain ⟨-, -, rfl⟩ := consumerShutdown_eq_some ht
    exact hs.of_eq hal (fun _ h => (by cases h)) fun _ => id
  | deadLetter sent =>
    obtain ⟨_, _, -, rfl | rfl⟩ := deadLetter_eq_some ht
    · exact hs.of_eq hal (fun _ h => (by cases h)) fun _ => id
    · exact hs.of_eq hal (fun _ h => (by cases h)) fun _ => id
  | commit asked =>
    obtain ⟨_, -, rfl | rfl⟩ := commit_eq_some ht
    · exact hs.of_eq hal (fun _ h => (by cases h)) fun _ => id
    · exact hs.of_eq hal (fun _ h => (by cases h)) fun _ => id
  | answerCommit accepted =>
    obtain ⟨_, _, -, ⟨-, rfl⟩ | ⟨-, rfl⟩⟩ := answerCommit_eq_some ht
    · exact ⟨hal, hs.sending, hs.queued⟩
    · exact ⟨hal, hs.sending, hs.queued⟩
  | pipeline b =>
    obtain ⟨core, -, -, -, ⟨_, _, _, rest, -, hqueued, rfl⟩ | ⟨-, rfl⟩⟩ := pipeline_eq_some ht
    · exact ⟨hal, hs.sending, fun d hd => hs.queued d (hqueued ▸ List.mem_cons_of_mem _ hd)⟩
    · exact ⟨hal, hs.sending, hs.queued⟩
  | letGo =>
    obtain ⟨-, -, rfl⟩ := letGo_eq_some ht
    exact ⟨hal, hs.sending, nofun⟩

/-- **The engine reads its events from the log**, whatever crashes. -/
theorem readFrom_step {a : Machine.OrCrash EngineAction} (hs : ReadFrom reader log s)
    (ht : (machine reader yara hash config log dedup).step s a = some t) :
    ReadFrom reader log t := by
  cases a with
  | act a => exact readFrom_session hs ht
  | crash =>
    obtain rfl := Option.some.inj ht
    exact ⟨aligned_start, fun _ h => (by cases h), nofun⟩

/-- A step that leaves the alerts alone. -/
theorem line_of_core (hcore : t.core.line = s.core.line) {new : List Alert} :
    t.core.line.Sublist (s.core.line ++ new) := hcore ▸ List.sublist_append_left _ _

theorem line_step {a : Machine.OrCrash EngineAction}
    (ht : (machine reader yara hash config log dedup).step s a = some t) :
    t.core.line.Sublist (s.core.line ++ s.raised reader yara a) := by
  cases a with
  | crash =>
    obtain rfl := Option.some.inj ht
    exact List.nil_sublist _
  | act a =>
    cases a with
    | pipeline b =>
      obtain ⟨core, hcore, -, -, ⟨_, _, _, _, -, -, rfl⟩ | ⟨-, rfl⟩⟩ := pipeline_eq_some ht
      · exact Pipeline.line_step hcore
      · exact Pipeline.line_step hcore
    | poll source =>
      obtain ⟨-, _, -, _, rfl, -⟩ := poll_eq_some ht
      exact line_of_core rfl
    | enqueue =>
      obtain ⟨delivery, -, ⟨-, rfl⟩ | ⟨-, -, rfl⟩⟩ := enqueue_eq_some ht
      · exact line_of_core rfl
      · refine line_of_core ?_
        show (s.offered delivery.event).line = s.core.line
        unfold offered
        split
        · rfl
        · rfl
    | streamError =>
      obtain ⟨-, rfl⟩ := streamError_eq_some ht
      exact line_of_core rfl
    | streamEnd =>
      obtain ⟨-, rfl⟩ := streamEnd_eq_some ht
      exact line_of_core rfl
    | consumerShutdown =>
      obtain ⟨-, -, rfl⟩ := consumerShutdown_eq_some ht
      exact line_of_core rfl
    | deadLetter sent =>
      obtain ⟨_, _, -, rfl | rfl⟩ := deadLetter_eq_some ht
      · exact line_of_core rfl
      · exact line_of_core rfl
    | commit asked =>
      obtain ⟨_, -, rfl | rfl⟩ := commit_eq_some ht
      · exact line_of_core rfl
      · exact line_of_core rfl
    | answerCommit accepted =>
      obtain ⟨_, _, -, ⟨-, rfl⟩ | ⟨-, rfl⟩⟩ := answerCommit_eq_some ht
      · exact line_of_core rfl
      · exact line_of_core rfl
    | letGo =>
      obtain ⟨-, -, rfl⟩ := letGo_eq_some ht
      exact line_of_core rfl

/-- An alert that a step raises is raised for the event the scanner takes. -/
theorem reason_of_raised {a : Machine.OrCrash EngineAction} {alert : Alert}
    (hs : ReadFrom reader log s)
    (ht : (machine reader yara hash config log dedup).step s a = some t)
    (halert : alert ∈ s.raised reader yara a) :
    ∃ current draw delivery, a = .act (.pipeline (.receive current draw)) ∧
      FromLog reader log delivery ∧
      RaisedFor reader.codec yara current draw delivery.event alert := by
  cases a with
  | crash => exact absurd halert List.not_mem_nil
  | act a =>
    cases a with
    | pipeline b =>
      cases b with
      | receive current draw =>
        obtain ⟨core, hcore, -, -, ⟨_, _, delivery, rest, -, hqueued, -⟩ | ⟨hnot, -⟩⟩ :=
          pipeline_eq_some ht
        · obtain ⟨event, events, -, hscanner, hevents, -⟩ := Pipeline.receive_eq_some hcore
          -- the event taken is the first on the channel
          have hsame := hs.aligned.events (by rw [hscanner]; nofun)
          rw [hqueued, hevents, List.map_cons] at hsame
          obtain ⟨hevent, -⟩ := List.cons.inj hsame
          have hraised : s.core.raised reader.codec yara (.receive current draw) =
              (evaluate reader.codec yara current event draw).toOption.getD [] := by
            rw [Pipeline.raised, hevents]
          have hmem : alert ∈ (evaluate reader.codec yara current event draw).toOption.getD [] :=
            hraised ▸ halert
          exact ⟨current, draw, delivery, rfl, hs.queued delivery (hqueued ▸ List.mem_cons_self),
            hevent ▸ raisedFor_of_mem hmem⟩
        · exact absurd rfl (hnot current draw)
      | _ => exact absurd halert List.not_mem_nil
    | _ => exact absurd halert List.not_mem_nil

/-- **What is stored was raised**, in its order and none twice. -/
theorem stored_sublist {l : List (Machine.OrCrash EngineAction)}
    (hrun : (machine reader yara hash config log dedup).run (init dedup) l = some t) :
    (t.core.stored.map Checked.alert).Sublist ((machine reader yara hash config log dedup).gathered
      (raised reader yara) (init dedup) l) := by
  have hline := Machine.run_line (fun _ _ _ => line_step) hrun
  refine List.Sublist.trans ?_ hline
  rw [Pipeline.line, List.map_append, List.map_append, List.append_assoc, List.append_assoc]
  exact List.sublist_append_left _ _

/-- **What was raised has a reason.** -/
theorem reason_of_gathered {l : List (Machine.OrCrash EngineAction)} {alert : Alert}
    (hrun : (machine reader yara hash config log dedup).run (init dedup) l = some t)
    (halert : alert ∈ (machine reader yara hash config log dedup).gathered (raised reader yara)
      (init dedup) l) :
    ∃ delivery current draw, FromLog reader log delivery ∧
      .act (.pipeline (.receive current draw)) ∈ l ∧
      RaisedFor reader.codec yara current draw delivery.event alert := by
  obtain ⟨before, a, after, u, rfl, hbefore, hraised⟩ := (Machine.mem_gathered hrun).1 halert
  have hread : ReadFrom reader log u :=
    Machine.run_preserves (fun _ _ _ => readFrom_step) hbefore
      ⟨aligned_start, fun _ h => (by cases h), nofun⟩
  obtain ⟨v, hstep, -⟩ :=
    Machine.run_cons_eq_some.1 ((Machine.run_append_of hbefore).symm.trans hrun)
  obtain ⟨current, draw, delivery, rfl, hfrom, hfor⟩ := reason_of_raised hread hstep hraised
  exact ⟨delivery, current, draw, hfrom, List.mem_append_right _ List.mem_cons_self, hfor⟩

/-- **Every alert has its reason**: whatever crashes, fails, is suppressed
or shut down, the alerts a session has stored are, in their order and none
twice, among those the run raised; and each alert raised was raised by the
rules in use at one of its scans, for an event that a message of a typed
topic says. -/
theorem stored_raised {l : List (Machine.OrCrash EngineAction)}
    (hrun : (machine reader yara hash config log dedup).run (init dedup) l = some t) :
    (t.core.stored.map Checked.alert).Sublist ((machine reader yara hash config log dedup).gathered
      (raised reader yara) (init dedup) l) ∧
    ∀ alert ∈ (machine reader yara hash config log dedup).gathered (raised reader yara)
      (init dedup) l, ∃ delivery current draw, FromLog reader log delivery ∧
        .act (.pipeline (.receive current draw)) ∈ l ∧
        RaisedFor reader.codec yara current draw delivery.event alert :=
  ⟨stored_sublist hrun, fun _ halert => reason_of_gathered hrun halert⟩

/-- An event is read, and its alert stored. -/
def untilStored : List (Machine.OrCrash EngineAction) :=
  [.act (.poll processTopic), .act .enqueue, .act (.commit (.ok ())), .act (.answerCommit true),
    .act (.pipeline (.receive Pipeline.shellRegistry fun _ => ⟨⟨1⟩, 0⟩)),
    .act (.pipeline .check), .act (.pipeline .send), .act (.pipeline .take),
    .act (.pipeline (.answer ⟨.ok (), .ok ()⟩))]

/-- The alert of the one message of a log, which is stored. -/
theorem stored_raised_oneEvent :
    ∃ t alert delivery current draw,
      (machine jsonReader allMatch (fun u => u.bits.toNat) smallConfig oneEvent
        Pipeline.smallDedup).run (init Pipeline.smallDedup) untilStored = some t ∧
      t.core.stored.map Checked.alert = [alert] ∧ FromLog jsonReader oneEvent delivery ∧
      .act (.pipeline (.receive current draw)) ∈ untilStored ∧
      RaisedFor jsonReader.codec allMatch current draw delivery.event alert := by
  obtain ⟨t, hrun, alert, hstored⟩ : ∃ t, (machine jsonReader allMatch (fun u => u.bits.toNat)
      smallConfig oneEvent Pipeline.smallDedup).run (init Pipeline.smallDedup) untilStored =
        some t ∧ ∃ alert, t.core.stored.map Checked.alert = [alert] :=
    ⟨_, Machine.run_cons_eq_some.2 ⟨_, machine_poll.trans poll_oneEvent, rfl⟩, _, rfl⟩
  obtain ⟨hsub, hreason⟩ := stored_raised hrun
  have hraised : alert ∈ (machine jsonReader allMatch (fun u => u.bits.toNat) smallConfig oneEvent
      Pipeline.smallDedup).gathered (raised jsonReader allMatch) (init Pipeline.smallDedup)
        untilStored :=
    hsub.subset (hstored ▸ List.mem_singleton_self alert)
  obtain ⟨delivery, current, draw, hfrom, hmem, hfor⟩ := hreason alert hraised
  exact ⟨t, alert, delivery, current, draw, hrun, hstored, hfrom, hmem, hfor⟩

end Engine

end AigisZero.RuleEngine
