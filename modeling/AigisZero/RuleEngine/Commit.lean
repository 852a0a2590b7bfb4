import AigisZero.Library.JsonText
import AigisZero.RuleEngine.Engine

/-!
# What a committed offset means

The consumer asks for the commit of a message once its event is on the
channel, or once the dead letter topic has answered. A commit covers every
earlier offset of its partition. Whether a committed message was evaluated
or is a dead letter depends on when the broker takes the commit, and this
file says when.
-/

namespace AigisZero.RuleEngine

namespace ConsumerPc

/-- The message the consumer has read and not yet handed on. -/
def open? : ConsumerPc → Option MessageId
  | .sending delivery => some delivery.id
  | .poisoned id _ => some id
  | _ => none

/-- The message the consumer works on. -/
def held? : ConsumerPc → Option MessageId
  | .sending delivery => some delivery.id
  | .poisoned id _ => some id
  | .committing id => some id
  | _ => none

end ConsumerPc

namespace Engine

variable (reader : EventReader) (config : EngineConfig) (log : TypedLog)

/-- The message was evaluated as the event it is, or is stored on the dead
letter topic as it came. Nothing is asked of an empty message. -/
def Settled (s : Engine) (id : MessageId) : Prop :=
  ∀ message, (log id.source)[id.offset]? = some message → message.getD [] ≠ [] →
    (∃ event, TelemetryEvent.fromSlice reader.text reader.codec (message.getD []) = some event ∧
      ⟨id, event⟩ ∈ s.evaluated) ∨
    ∃ record, (id, record) ∈ s.deadLettered ∧ record.topic = config.dlq_topic ∧
      record.payload = message.getD []

/-- **At least once**: every committed message was evaluated or is a dead
letter. -/
def AtLeastOnce (s : Engine) : Prop :=
  ∀ source offset, offset < s.committed source → Settled reader config log s ⟨source, offset⟩

/-- The messages of the session that the consumer is done with and nothing
has settled: on the event channel, lost with it, or refused by the dead
letter topic. -/
def unsettled (s : Engine) : List MessageId :=
  (s.queued ++ s.dropped).map Delivery.id ++ s.refused

/-- **A commit the broker takes covers nothing unsettled**, unless an
earlier session settled it. Other actions are free. -/
def CoversSettled (s : Engine) : Machine.OrCrash EngineAction → Prop
  | .act (.answerCommit true) => ∀ id rest, s.inFlight = id :: rest → ∀ m ∈ s.unsettled,
    m.source = id.source → m.offset ≤ id.offset → Settled reader config log s m
  | _ => True

/-- A message that no commit makes worse. -/
def Accounted (s : Engine) (id : MessageId) : Prop :=
  id.offset < s.committed id.source ∨ Settled reader config log s id ∨ id ∈ s.unsettled

/-- The event is what the message reads as. -/
def Reads (delivery : Delivery) : Prop :=
  ∀ message, (log delivery.id.source)[delivery.id.offset]? = some message →
    TelemetryEvent.fromSlice reader.text reader.codec (message.getD []) = some delivery.event

/-- **The bookkeeping of the commits.** -/
structure CommitInv (s : Engine) : Prop where
  /-- All that was read is accounted for, save the message in hand. -/
  read : s.consumer ≠ .exited → ∀ id : MessageId, id.offset < s.position id.source →
    Accounted reader config log s id ∨ s.consumer.open? = some id
  /-- So is all that a commit in flight covers. -/
  covered : ∀ c ∈ s.inFlight, ∀ id : MessageId, id.source = c.source → id.offset ≤ c.offset →
    Accounted reader config log s id
  committed : ∀ source, s.committed source ≤ s.position source
  inFlight : ∀ c ∈ s.inFlight, s.committed c.source ≤ c.offset ∧ c.offset < s.position c.source
  /-- Commits are in flight in the order of their offsets. -/
  sorted : s.inFlight.Pairwise fun c d => c.source = d.source → c.offset < d.offset
  held : ∀ id, s.consumer.held? = some id → id.offset < s.position id.source ∧
    s.committed id.source ≤ id.offset ∧
      ∀ c ∈ s.inFlight, c.source = id.source → c.offset < id.offset
  sending : ∀ delivery, s.consumer = .sending delivery → Reads reader log delivery
  poisoned : ∀ id payload, s.consumer = .poisoned id payload → ∀ message,
    (log id.source)[id.offset]? = some message → message.getD [] = payload
  queued : ∀ delivery ∈ s.queued, Reads reader log delivery

variable {reader config log} {s t : Engine} {a : Machine.OrCrash EngineAction} {id : MessageId}
  {yara : YaraX} {hash : Uuid → ℕ} {dedup : ShardedDeduplicator}

/-! ## What stays -/

/-- What is settled stays so. -/
theorem Settled.mono (h : Settled reader config log s id)
    (hevaluated : ∀ d ∈ s.evaluated, d ∈ t.evaluated)
    (hdead : ∀ d ∈ s.deadLettered, d ∈ t.deadLettered) : Settled reader config log t id := by
  intro message hmessage hne
  rcases h message hmessage hne with ⟨event, hevent, hmem⟩ | ⟨record, hmem, htopic, hpayload⟩
  · exact .inl ⟨event, hevent, hevaluated _ hmem⟩
  · exact .inr ⟨record, hdead _ hmem, htopic, hpayload⟩

theorem Settled.of_eq (h : Settled reader config log s id) (hevaluated : t.evaluated = s.evaluated)
    (hdead : t.deadLettered = s.deadLettered) : Settled reader config log t id :=
  h.mono (fun _ hd => hevaluated ▸ hd) fun _ hd => hdead ▸ hd

theorem Accounted.mono (h : Accounted reader config log s id)
    (hcommitted : s.committed id.source ≤ t.committed id.source)
    (hsettled : Settled reader config log s id → Settled reader config log t id)
    (hunsettled : id ∈ s.unsettled → id ∈ t.unsettled ∨ Settled reader config log t id) :
    Accounted reader config log t id := by
  rcases h with h | h | h
  · exact .inl (h.trans_le hcommitted)
  · exact .inr (.inl (hsettled h))
  · rcases hunsettled h with h | h
    · exact .inr (.inr h)
    · exact .inr (.inl h)

/-- A step that commits nothing keeps the promise. -/
theorem AtLeastOnce.mono (h : AtLeastOnce reader config log s)
    (hcommitted : t.committed = s.committed)
    (hevaluated : ∀ d ∈ s.evaluated, d ∈ t.evaluated)
    (hdead : ∀ d ∈ s.deadLettered, d ∈ t.deadLettered) : AtLeastOnce reader config log t :=
  fun source offset hlt => (h source offset (hcommitted ▸ hlt)).mono hevaluated hdead

theorem AtLeastOnce.of_eq (h : AtLeastOnce reader config log s)
    (hcommitted : t.committed = s.committed)
    (hevaluated : t.evaluated = s.evaluated) (hdead : t.deadLettered = s.deadLettered) :
    AtLeastOnce reader config log t :=
  h.mono hcommitted (fun _ hd => hevaluated ▸ hd) fun _ hd => hdead ▸ hd

theorem mem_unsettled {m : MessageId} : m ∈ s.unsettled ↔
    (∃ d ∈ s.queued, d.id = m) ∨ (∃ d ∈ s.dropped, d.id = m) ∨ m ∈ s.refused := by
  simp only [unsettled, List.mem_append, List.mem_map, or_and_right, exists_or, or_assoc]

theorem held?_of_open? {pc : ConsumerPc} (h : pc.open? = some id) : pc.held? = some id := by
  cases pc <;> first | exact h | cases h

/-! ## Each action keeps the books -/

theorem commitInv_start {committed : TopicPartition → ℕ} {evaluated : List Delivery}
    {deadLettered : List (MessageId × Router.Record)} :
    CommitInv reader config log (start dedup committed evaluated deadLettered) where
  read _ id hlt := .inl (.inl hlt)
  covered c hc := absurd hc List.not_mem_nil
  committed source := le_rfl
  inFlight c hc := absurd hc List.not_mem_nil
  sorted := List.Pairwise.nil
  held id h := by cases h
  sending delivery h := by cases h
  poisoned id payload h := by cases h
  queued delivery h := absurd h List.not_mem_nil

/-- A step of the pipeline, or the end of the channel: the consumer and the
commits are left alone. -/
theorem CommitInv.of_frame (h : CommitInv reader config log s) (hconsumer : t.consumer = s.consumer)
    (hposition : t.position = s.position) (hcommitted : t.committed = s.committed)
    (hinFlight : t.inFlight = s.inFlight) (hqueued : ∀ d ∈ t.queued, d ∈ s.queued)
    (haccounted : ∀ id, Accounted reader config log s id → Accounted reader config log t id) :
    CommitInv reader config log t where
  read hrunning id hlt := by
    rw [hconsumer] at hrunning ⊢
    exact (h.read hrunning id (hposition ▸ hlt)).imp_left (haccounted id)
  covered c hc id hsource hle := haccounted id (h.covered c (hinFlight ▸ hc) id hsource hle)
  committed source := by
    rw [hcommitted, hposition]
    exact h.committed source
  inFlight c hc := by
    rw [hcommitted, hposition]
    exact h.inFlight c (hinFlight ▸ hc)
  sorted := hinFlight ▸ h.sorted
  held id hheld := by
    rw [hcommitted, hposition, hinFlight]
    exact h.held id (hconsumer ▸ hheld)
  sending delivery hsending := h.sending delivery (hconsumer ▸ hsending)
  poisoned id payload hpoisoned := h.poisoned id payload (hconsumer ▸ hpoisoned)
  queued delivery hd := h.queued delivery (hqueued delivery hd)

theorem CommitInv.leave (h : CommitInv reader config log s) :
    CommitInv reader config log s.leave where
  read hrunning := absurd rfl hrunning
  covered := h.covered
  committed := h.committed
  inFlight := h.inFlight
  sorted := h.sorted
  held id hheld := by cases hheld
  sending delivery hsending := by cases hsending
  poisoned id payload hpoisoned := by cases hpoisoned
  queued := h.queued

/-- A read moves past one message. -/
theorem offset_lt_of_ne {position : TopicPartition → ℕ} {source : TopicPartition} {id : MessageId}
    (hne : id ≠ ⟨source, position source⟩)
    (hlt : id.offset < Function.update position source (position source + 1) id.source) :
    id.offset < position id.source := by
  by_cases hsource : id.source = source
  · obtain ⟨_, offset⟩ := id
    subst hsource
    have hle : offset ≤ position _ := Nat.lt_succ_iff.1 (by simpa using hlt)
    exact lt_of_le_of_ne hle fun heq => hne (by rw [← heq])
  · rwa [Function.update_of_ne hsource] at hlt

/-- A message is read: it is in hand, or empty. -/
theorem CommitInv.poll {source : TopicPartition} (h : CommitInv reader config log s)
    (ht : s.poll reader log source = some t) : CommitInv reader config log t := by
  obtain ⟨hconsumer, message, hmessage, pc, rfl, hpc⟩ := poll_eq_some ht
  have hposition : s.position ≤ Function.update s.position source (s.position source + 1) :=
    le_update_self_iff.2 (Nat.le_succ _)
  have hrunning : s.consumer ≠ .exited := by
    intro hexited
    rw [hconsumer] at hexited
    cases hexited
  have hopen : ∀ id, pc.held? = some id → id = ⟨source, s.position source⟩ := by
    intro id hid
    rcases hpc with ⟨-, rfl⟩ | ⟨-, ⟨event, -, rfl⟩ | rfl⟩
    · cases hid
    · exact (Option.some.inj hid).symm
    · exact (Option.some.inj hid).symm
  refine ⟨fun _ id hlt => ?_, h.covered, fun p => (h.committed p).trans (hposition p),
    fun c hc => ⟨(h.inFlight c hc).1, (h.inFlight c hc).2.trans_le (hposition _)⟩, h.sorted, ?_, ?_,
    ?_, h.queued⟩
  · -- what was read before is accounted for, and what is read now is in hand or empty
    by_cases hid : id = ⟨source, s.position source⟩
    · rcases hpc with ⟨hempty, -⟩ | ⟨-, ⟨event, -, rfl⟩ | rfl⟩
      · refine .inl (.inr (.inl fun message' hmessage' hne => ?_))
        subst hid
        obtain rfl : message = message' := Option.some.inj (hmessage.symm.trans hmessage')
        exact absurd hempty hne
      · exact .inr (congrArg some hid.symm)
      · exact .inr (congrArg some hid.symm)
    · have hbefore : id.offset < s.position id.source := offset_lt_of_ne hid hlt
      rcases h.read hrunning id hbefore with haccounted | hheld
      · exact .inl haccounted
      · rw [hconsumer] at hheld
        cases hheld
  · intro id hid
    obtain rfl := hopen id hid
    refine ⟨?_, h.committed source, fun c hc hsource => ?_⟩
    · show s.position source < Function.update s.position source _ source
      rw [Function.update_self]
      exact Nat.lt_succ_self _
    · have hlt := (h.inFlight c hc).2
      rw [hsource] at hlt
      exact hlt
  · intro delivery hsending message' hmessage'
    rcases hpc with ⟨-, rfl⟩ | ⟨-, ⟨event, hevent, rfl⟩ | rfl⟩
    · cases hsending
    · cases hsending
      obtain rfl : message = message' := Option.some.inj (hmessage.symm.trans hmessage')
      exact hevent
    · cases hsending
  · intro id payload hpoisoned message' hmessage'
    rcases hpc with ⟨-, rfl⟩ | ⟨-, ⟨event, hevent, rfl⟩ | rfl⟩
    · cases hpoisoned
    · cases hpoisoned
    · cases hpoisoned
      obtain rfl : message = message' := Option.some.inj (hmessage.symm.trans hmessage')
      rfl

/-- The message in hand is handed on: what it becomes is accounted for. -/
theorem CommitInv.hand (h : CommitInv reader config log s) (hopen : s.consumer.open? = some id)
    (hconsumer : t.consumer = .committing id) (hposition : t.position = s.position)
    (hcommitted : t.committed = s.committed) (hinFlight : t.inFlight = s.inFlight)
    (hqueued : ∀ d ∈ t.queued, Reads reader log d) (hid : Accounted reader config log t id)
    (haccounted : ∀ m, Accounted reader config log s m → Accounted reader config log t m) :
    CommitInv reader config log t where
  read _ m hlt := by
    have hrunning : s.consumer ≠ .exited := by
      intro hexited
      rw [hexited] at hopen
      cases hopen
    rcases h.read hrunning m (hposition ▸ hlt) with hm | hm
    · exact .inl (haccounted m hm)
    · obtain rfl : id = m := Option.some.inj (hopen.symm.trans hm)
      exact .inl hid
  covered c hc m hsource hle := haccounted m (h.covered c (hinFlight ▸ hc) m hsource hle)
  committed source := by
    rw [hcommitted, hposition]
    exact h.committed source
  inFlight c hc := by
    rw [hcommitted, hposition]
    exact h.inFlight c (hinFlight ▸ hc)
  sorted := hinFlight ▸ h.sorted
  held m hheld := by
    rw [hconsumer] at hheld
    obtain rfl : id = m := Option.some.inj hheld
    rw [hcommitted, hposition, hinFlight]
    exact h.held id (held?_of_open? hopen)
  sending delivery hsending := by
    rw [hconsumer] at hsending
    cases hsending
  poisoned m payload hpoisoned := by
    rw [hconsumer] at hpoisoned
    cases hpoisoned
  queued := hqueued

theorem CommitInv.enqueue (h : CommitInv reader config log s)
    (ht : s.enqueue config = some t) : CommitInv reader config log t := by
  obtain ⟨delivery, hconsumer, ⟨-, rfl⟩ | ⟨-, -, rfl⟩⟩ := enqueue_eq_some ht
  · exact h.leave
  · have hopen : s.consumer.open? = some delivery.id := by rw [hconsumer]; rfl
    refine h.hand hopen rfl rfl rfl rfl ?_ ?_ ?_
    · intro d hd
      rcases List.mem_append.1 hd with hd | hd
      · exact h.queued d hd
      · obtain rfl := List.mem_singleton.1 hd
        exact h.sending d hconsumer
    · exact .inr (.inr (mem_unsettled.2 (.inl ⟨delivery, by simp, rfl⟩)))
    · intro m hm
      refine hm.mono le_rfl (fun hm => hm.of_eq rfl rfl) fun hm => .inl ?_
      rcases mem_unsettled.1 hm with ⟨d, hd, hm⟩ | hm
      · exact mem_unsettled.2 (.inl ⟨d, List.mem_append_left _ hd, hm⟩)
      · exact mem_unsettled.2 (.inr hm)

theorem CommitInv.deadLetter {sent : Except String Unit} (h : CommitInv reader config log s)
    (ht : s.deadLetter reader config sent = some t) : CommitInv reader config log t := by
  obtain ⟨m, payload, hconsumer, rfl | rfl⟩ := deadLetter_eq_some ht
  · have hdead : ∀ d ∈ s.deadLettered,
        d ∈ s.deadLettered ++ [(m, poison reader config m payload)] :=
      fun d hd => List.mem_append_left _ hd
    have hopen : s.consumer.open? = some m := by rw [hconsumer]; rfl
    refine h.hand hopen rfl rfl rfl rfl h.queued ?_ ?_
    · refine .inr (.inl fun message hmessage _ =>
        .inr ⟨poison reader config m payload, ?_, rfl, ?_⟩)
      · exact List.mem_append_right _ (List.mem_singleton_self _)
      · exact (h.poisoned m payload hconsumer message hmessage).symm
    · exact fun m' hm => hm.mono le_rfl (fun hm => hm.mono (fun _ => id) hdead) .inl
  · have hopen : s.consumer.open? = some m := by rw [hconsumer]; rfl
    refine h.hand hopen rfl rfl rfl rfl h.queued ?_ ?_
    · exact .inr (.inr (mem_unsettled.2 (.inr (.inr (by simp)))))
    · intro m' hm
      refine hm.mono le_rfl (fun hm => hm.of_eq rfl rfl) fun hm => .inl ?_
      rcases mem_unsettled.1 hm with hm | hm | hm
      · exact mem_unsettled.2 (.inl hm)
      · exact mem_unsettled.2 (.inr (.inl hm))
      · exact mem_unsettled.2 (.inr (.inr (List.mem_append_left _ hm)))

/-- Asking for a commit: all it covers was read before. -/
theorem CommitInv.commit {asked : Except String Unit} (h : CommitInv reader config log s)
    (ht : s.commit asked = some t) : CommitInv reader config log t := by
  obtain ⟨m, hconsumer, hcases⟩ := commit_eq_some ht
  obtain ⟨hread, hcommitted, hbehind⟩ := h.held m (by rw [hconsumer]; rfl)
  have haccounted : ∀ id : MessageId, id.offset < s.position id.source →
      Accounted reader config log s id := by
    intro id hlt
    refine (h.read (fun hexited => ?_) id hlt).resolve_right fun hopen => ?_
    · rw [hconsumer] at hexited
      cases hexited
    · rw [hconsumer] at hopen
      cases hopen
  rcases hcases with rfl | rfl
  · refine ⟨fun _ id hlt => .inl (haccounted id hlt), ?_, h.committed, ?_, ?_, ?_, ?_, ?_, h.queued⟩
    · intro c hc id hsource hle
      rcases List.mem_append.1 hc with hc | hc
      · exact h.covered c hc id hsource hle
      · obtain rfl := List.mem_singleton.1 hc
        exact haccounted id (hsource ▸ hle.trans_lt hread)
    · intro c hc
      rcases List.mem_append.1 hc with hc | hc
      · exact h.inFlight c hc
      · obtain rfl := List.mem_singleton.1 hc
        exact ⟨hcommitted, hread⟩
    · refine List.pairwise_append.2
        ⟨h.sorted, List.pairwise_singleton .., fun c hc d hd hsource => ?_⟩
      obtain rfl := List.mem_singleton.1 hd
      exact hbehind c hc hsource
    · exact fun id hid => by cases hid
    · exact fun id hid => by cases hid
    · exact fun id payload hid => by cases hid
  · refine ⟨fun _ id hlt => .inl (haccounted id hlt), h.covered, h.committed, h.inFlight, h.sorted,
      ?_, ?_, ?_, h.queued⟩
    · exact fun id hid => by cases hid
    · exact fun id hid => by cases hid
    · exact fun id payload hid => by cases hid

/-- The committed offsets only go up. -/
theorem committed_le_update (h : CommitInv reader config log s) {m : MessageId}
    (hm : m ∈ s.inFlight) (p : TopicPartition) :
    s.committed p ≤ Function.update s.committed m.source (m.offset + 1) p := by
  have hupdate : s.committed ≤ Function.update s.committed m.source (m.offset + 1) :=
    le_update_self_iff.2 ((h.inFlight m hm).1.trans (Nat.le_succ _))
  exact hupdate p

/-- What lies beyond the offset that is committed stays beyond. -/
theorem update_committed_le {committed : TopicPartition → ℕ} {m id : MessageId}
    (hle : committed id.source ≤ id.offset)
    (hafter : m.source = id.source → m.offset < id.offset) :
    Function.update committed m.source (m.offset + 1) id.source ≤ id.offset := by
  by_cases hsource : id.source = m.source
  · rw [hsource, Function.update_self]
    exact hafter hsource.symm
  · rwa [Function.update_of_ne hsource]

/-- The broker answers a commit. -/
theorem CommitInv.answerCommit {accepted : Bool} (h : CommitInv reader config log s)
    (ht : s.answerCommit accepted = some t) : CommitInv reader config log t := by
  obtain ⟨m, rest, hflight, hcases⟩ := answerCommit_eq_some ht
  have hrest : ∀ c ∈ rest, c ∈ s.inFlight := fun c hc => hflight ▸ List.mem_cons_of_mem _ hc
  have hm : m ∈ s.inFlight := hflight ▸ List.mem_cons_self
  have hsorted := h.sorted
  rw [hflight] at hsorted
  obtain ⟨hfirst, hsorted⟩ := List.pairwise_cons.1 hsorted
  rcases hcases with ⟨-, rfl⟩ | ⟨-, rfl⟩
  · have haccounted : ∀ id, Accounted reader config log s id → Accounted reader config log
        { s with
          inFlight := rest
          committed := Function.update s.committed m.source (m.offset + 1) } id :=
      fun id hid => hid.mono (committed_le_update h hm _)
        (fun hid => hid.of_eq rfl rfl) .inl
    refine ⟨fun hrunning id hlt => (h.read hrunning id hlt).imp_left (haccounted id),
      fun c hc id hsource hle => haccounted id (h.covered c (hrest c hc) id hsource hle), ?_, ?_,
      hsorted, ?_, h.sending, h.poisoned, h.queued⟩
    · have hread : Function.update s.committed m.source (m.offset + 1) ≤ s.position :=
        update_le_iff.2 ⟨(h.inFlight m hm).2, fun p _ => h.committed p⟩
      exact hread
    · intro c hc
      obtain ⟨hle, hlt⟩ := h.inFlight c (hrest c hc)
      exact ⟨update_committed_le hle (hfirst c hc), hlt⟩
    · intro id hid
      obtain ⟨hlt, hle, hbehind⟩ := h.held id hid
      exact ⟨hlt, update_committed_le hle (hbehind m hm), fun c hc => hbehind c (hrest c hc)⟩
  · refine ⟨h.read, fun c hc => h.covered c (hrest c hc), h.committed,
      fun c hc => h.inFlight c (hrest c hc), hsorted, fun id hid => ?_, h.sending, h.poisoned,
      h.queued⟩
    obtain ⟨hlt, hle, hbehind⟩ := h.held id hid
    exact ⟨hlt, hle, fun c hc => hbehind c (hrest c hc)⟩

/-- A step of the pipeline: what the scanner takes is evaluated. -/
theorem CommitInv.pipeline {b : PipelineAction} (h : CommitInv reader config log s)
    (ht : s.pipeline reader yara hash config b = some t) : CommitInv reader config log t := by
  obtain ⟨core, -, -, -, ⟨-, -, d, rest, -, hqueued, rfl⟩ | ⟨-, rfl⟩⟩ := pipeline_eq_some ht
  · refine h.of_frame rfl rfl rfl rfl (fun d' hd => hqueued ▸ List.mem_cons_of_mem _ hd) ?_
    have hevaluated : ∀ d' ∈ s.evaluated, d' ∈ s.evaluated ++ [d] :=
      fun d' hd => List.mem_append_left _ hd
    intro m hm
    refine hm.mono le_rfl (fun hm => hm.mono hevaluated fun _ => id) fun hm => ?_
    rcases mem_unsettled.1 hm with ⟨d', hd, rfl⟩ | hm
    · rw [hqueued] at hd
      rcases List.mem_cons.1 hd with rfl | hd
      · have hreads := h.queued d' (hqueued ▸ List.mem_cons_self)
        exact .inr fun message hmessage _ => .inl ⟨d'.event, hreads message hmessage, by simp⟩
      · exact .inl (mem_unsettled.2 (.inl ⟨d', hd, rfl⟩))
    · exact .inl (mem_unsettled.2 (.inr hm))
  · exact h.of_frame rfl rfl rfl rfl (fun d hd => hd) fun m hm => hm

theorem CommitInv.letGo (h : CommitInv reader config log s) (ht : s.letGo = some t) :
    CommitInv reader config log t := by
  obtain ⟨-, -, rfl⟩ := letGo_eq_some ht
  refine h.of_frame rfl rfl rfl rfl (fun d hd => absurd hd List.not_mem_nil) fun m hm => ?_
  refine hm.mono le_rfl (fun hm => hm.of_eq rfl rfl) fun hm => .inl ?_
  rcases mem_unsettled.1 hm with ⟨d, hd, rfl⟩ | ⟨d, hd, rfl⟩ | hm
  · exact mem_unsettled.2 (.inr (.inl ⟨d, List.mem_append_right _ hd, rfl⟩))
  · exact mem_unsettled.2 (.inr (.inl ⟨d, List.mem_append_left _ hd, rfl⟩))
  · exact mem_unsettled.2 (.inr (.inr hm))

/-- **Every step keeps the books.** -/
theorem commitInv_step (h : CommitInv reader config log s)
    (ht : (machine reader yara hash config log dedup).step s a = some t) :
    CommitInv reader config log t := by
  cases a with
  | crash =>
    obtain rfl := Option.some.inj ht
    exact commitInv_start
  | act a =>
    cases a with
    | poll source => exact h.poll ht
    | streamError =>
      obtain ⟨-, rfl⟩ := streamError_eq_some ht
      exact h
    | streamEnd =>
      obtain ⟨-, rfl⟩ := streamEnd_eq_some ht
      exact h.leave
    | consumerShutdown =>
      obtain ⟨-, -, rfl⟩ := consumerShutdown_eq_some ht
      exact h.leave
    | enqueue => exact h.enqueue ht
    | deadLetter sent => exact h.deadLetter ht
    | commit asked => exact h.commit ht
    | answerCommit accepted => exact h.answerCommit ht
    | pipeline b => exact h.pipeline ht
    | letGo => exact h.letGo ht

/-! ## At least once -/

/-- **The broker's answer keeps the promise exactly when it covers nothing
unsettled.** -/
theorem atLeastOnce_answerCommit_iff {accepted : Bool} (hi : CommitInv reader config log s)
    (hs : AtLeastOnce reader config log s) (ht : s.answerCommit accepted = some t) :
    AtLeastOnce reader config log t ↔
      CoversSettled reader config log s (.act (.answerCommit accepted)) := by
  obtain ⟨m, rest, hflight, ⟨rfl, rfl⟩ | ⟨rfl, rfl⟩⟩ := answerCommit_eq_some ht
  · have hm : m ∈ s.inFlight := hflight ▸ List.mem_cons_self
    constructor
    · intro h id' rest' hflight' m' hm' hsource hle
      obtain ⟨rfl, rfl⟩ := List.cons.inj (hflight.symm.trans hflight')
      refine (h m'.source m'.offset ?_).of_eq rfl rfl
      show m'.offset < Function.update s.committed m.source (m.offset + 1) m'.source
      rw [hsource, Function.update_self]
      exact Nat.lt_succ_of_le hle
    · intro hG source offset hlt
      by_cases hp : source = m.source
      · subst hp
        have hle : offset ≤ m.offset := Nat.lt_succ_iff.1 (by simpa using hlt)
        rcases hi.covered m hm ⟨m.source, offset⟩ rfl hle with hold | hsettled | hunsettled
        · exact (hs _ _ hold).of_eq rfl rfl
        · exact hsettled.of_eq rfl rfl
        · exact (hG m rest hflight _ hunsettled rfl hle).of_eq rfl rfl
      · have hold : offset < s.committed source := by simpa [Function.update_of_ne hp] using hlt
        exact (hs source offset hold).of_eq rfl rfl
  · exact iff_of_true (hs.of_eq rfl rfl rfl) trivial

/-- Each action keeps the promise exactly when it meets the condition. -/
theorem atLeastOnce_step_iff (hi : CommitInv reader config log s)
    (hs : AtLeastOnce reader config log s)
    (ht : (machine reader yara hash config log dedup).step s a = some t) :
    AtLeastOnce reader config log t ↔ CoversSettled reader config log s a := by
  cases a with
  | crash =>
    obtain rfl := Option.some.inj ht
    exact iff_of_true (hs.of_eq rfl rfl rfl) trivial
  | act a =>
    cases a with
    | answerCommit accepted => exact atLeastOnce_answerCommit_iff hi hs ht
    | poll source =>
      obtain ⟨-, _, -, _, rfl, -⟩ := poll_eq_some ht
      exact iff_of_true (hs.of_eq rfl rfl rfl) trivial
    | streamError =>
      obtain ⟨-, rfl⟩ := streamError_eq_some ht
      exact iff_of_true hs trivial
    | streamEnd =>
      obtain ⟨-, rfl⟩ := streamEnd_eq_some ht
      exact iff_of_true (hs.of_eq rfl rfl rfl) trivial
    | consumerShutdown =>
      obtain ⟨-, -, rfl⟩ := consumerShutdown_eq_some ht
      exact iff_of_true (hs.of_eq rfl rfl rfl) trivial
    | enqueue =>
      obtain ⟨_, -, ⟨-, rfl⟩ | ⟨-, -, rfl⟩⟩ := enqueue_eq_some ht <;>
        exact iff_of_true (hs.of_eq rfl rfl rfl) trivial
    | deadLetter sent =>
      obtain ⟨_, _, -, rfl | rfl⟩ := deadLetter_eq_some ht
      · exact iff_of_true (hs.mono rfl (fun _ => id) fun _ hd => List.mem_append_left _ hd) trivial
      · exact iff_of_true (hs.of_eq rfl rfl rfl) trivial
    | commit asked =>
      obtain ⟨_, -, rfl | rfl⟩ := commit_eq_some ht <;>
        exact iff_of_true (hs.of_eq rfl rfl rfl) trivial
    | pipeline b =>
      obtain ⟨_, -, -, -, ⟨-, -, _, _, -, -, rfl⟩ | ⟨-, rfl⟩⟩ := pipeline_eq_some ht
      · exact iff_of_true (hs.mono rfl (fun _ hd => List.mem_append_left _ hd) fun _ => id) trivial
      · exact iff_of_true (hs.of_eq rfl rfl rfl) trivial
    | letGo =>
      obtain ⟨-, -, rfl⟩ := letGo_eq_some ht
      exact iff_of_true (hs.of_eq rfl rfl rfl) trivial

/-- **Every committed message is evaluated or a dead letter, along a run,
exactly when every commit the broker takes covers nothing unsettled.** -/
theorem atLeastOnce_iff {l : List (Machine.OrCrash EngineAction)}
    (hrun : (machine reader yara hash config log dedup).run (init dedup) l = some t) :
    (machine reader yara hash config log dedup).Always (AtLeastOnce reader config log)
      (init dedup) l ↔
      (machine reader yara hash config log dedup).EveryStep (CoversSettled reader config log)
        (init dedup) l :=
  Machine.always_iff_everyStep (fun _ _ _ hi ht => commitInv_step hi ht)
    (fun _ _ _ hi hs ht => atLeastOnce_step_iff hi hs ht) commitInv_start
    (fun _ _ hlt => absurd hlt (Nat.not_lt_zero _)) hrun

/-- A reader of JSON events. -/
def jsonReader : EventReader := ⟨.standard, JsonText.codec, JsonText.codec.errorText⟩

/-- An engine whose dead letters go where those of the router go. -/
def smallConfig : EngineConfig := { Pipeline.eager with dlq_topic := Router.dlq }

/-- The partition of the messages below. -/
def processTopic : TopicPartition := ⟨"aigis.events.process", 0⟩

/-- The typed topics with one message. -/
def oneMessage (payload : Bytes) : TypedLog :=
  fun source => if source = processTopic then [some payload] else []

/-- The typed topics with an event of a process. -/
def oneEvent : TypedLog := oneMessage (JsonText.codec.toVec (probe "process"))

theorem fromSlice_probe :
    TelemetryEvent.fromSlice .standard JsonText.codec (JsonText.codec.toVec (probe "process")) =
      some (probeEvent "process") := by
  rw [TelemetryEvent.fromSlice, JsonText.codec.fromSlice_toVec (canonical_probe "process"),
    Option.bind_some]
  exact ofJson_probe fun k => rfl

/-- The message is no event, the dead letter topic takes it, and then its
commit is taken. -/
theorem atLeastOnce_iff_deadLetter :
    (machine jsonReader allMatch (fun u => u.bits.toNat) smallConfig (oneMessage (utf8 "x"))
        Pipeline.smallDedup).Always (AtLeastOnce jsonReader smallConfig (oneMessage (utf8 "x")))
        (init Pipeline.smallDedup)
        [.act (.poll processTopic), .act (.deadLetter (.ok ())), .act (.commit (.ok ())),
          .act (.answerCommit true)] ↔
      (machine jsonReader allMatch (fun u => u.bits.toNat) smallConfig (oneMessage (utf8 "x"))
        Pipeline.smallDedup).EveryStep
        (CoversSettled jsonReader smallConfig (oneMessage (utf8 "x"))) (init Pipeline.smallDedup)
        [.act (.poll processTopic), .act (.deadLetter (.ok ())), .act (.commit (.ok ())),
          .act (.answerCommit true)] :=
  atLeastOnce_iff rfl

theorem probe_ne_nil : JsonText.codec.toVec (probe "process") ≠ [] := by
  intro hnil
  have hread := fromSlice_probe
  rw [hnil] at hread
  cases hread

theorem machine_poll {source : TopicPartition} :
    (machine reader yara hash config log dedup).step s (.act (.poll source)) =
      s.poll reader log source := rfl

/-- The first step of an engine that has an event to read. -/
theorem poll_oneEvent : (init Pipeline.smallDedup).poll jsonReader oneEvent processTopic =
    some { init Pipeline.smallDedup with
      position := Function.update (fun _ => 0) processTopic 1
      consumer := .sending ⟨⟨processTopic, 0⟩, probeEvent "process"⟩ } :=
  poll_of_fromSlice rfl (show _ = some (some (JsonText.codec.toVec (probe "process"))) from rfl)
    probe_ne_nil fromSlice_probe

/-- **A committed event can be lost for good**: its commit is taken while
it is on the channel, and the engine crashes. -/
theorem not_atLeastOnce_crashed :
    ∃ t, (machine jsonReader allMatch (fun u => u.bits.toNat) smallConfig oneEvent
        Pipeline.smallDedup).run (init Pipeline.smallDedup)
        [.act (.poll processTopic), .act .enqueue, .act (.commit (.ok ())),
          .act (.answerCommit true), .crash] = some t ∧
      ¬ AtLeastOnce jsonReader smallConfig oneEvent t := by
  refine ⟨_, Machine.run_cons_eq_some.2 ⟨_, machine_poll.trans poll_oneEvent, rfl⟩, fun h => ?_⟩
  have hcommitted := h processTopic 0 (Nat.zero_lt_one)
    (some (JsonText.codec.toVec (probe "process"))) rfl probe_ne_nil
  rcases hcommitted with ⟨_, -, hevaluated⟩ | ⟨_, hdead, -⟩
  · exact absurd hevaluated List.not_mem_nil
  · exact absurd hdead List.not_mem_nil

/-- **So can a refused dead letter**: its message is committed all the
same. -/
theorem not_atLeastOnce_refused :
    ∃ t, (machine jsonReader allMatch (fun u => u.bits.toNat) smallConfig (oneMessage (utf8 "x"))
        Pipeline.smallDedup).run (init Pipeline.smallDedup)
        [.act (.poll processTopic), .act (.deadLetter (.error "queue full")),
          .act (.commit (.ok ())), .act (.answerCommit true)] = some t ∧
      ¬ AtLeastOnce jsonReader smallConfig (oneMessage (utf8 "x")) t := by
  refine ⟨_, rfl, fun h => ?_⟩
  rcases h processTopic 0 Nat.zero_lt_one (some (utf8 "x")) rfl (by decide) with
    ⟨_, -, hevaluated⟩ | ⟨_, hdead, -⟩
  · exact absurd hevaluated List.not_mem_nil
  · exact absurd hdead List.not_mem_nil

end Engine

end AigisZero.RuleEngine
