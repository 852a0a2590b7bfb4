import AigisZero.Library.JsonText
import AigisZero.Stream.NoLoss

/-!
# In what order events are published, and how often

An event goes from the buffer into a batch, from the batch into the
outbound channel, and from there up to the server: queues all of them, so
what one connection publishes it publishes in the order in which it was
pushed. Two things break the line. A batch that fails goes back to the end
of the buffer, with what was sent of it, and a connection that is let go
may still publish when the next is at work. Neither publishes an event
more often than it was put into the buffer.
-/

namespace AigisZero.Stream

open Agent

/-! ## One connection -/

namespace Connection

/-- The events a connection has still to publish, the next one first. -/
def carried (c : Connection) : List Proto.AgentEvent := c.ingesting ++ c.upstream ++ c.outbound

variable {w : Windows} {c c' : Connection} {a : ConnectionAction}
  {published : List Proto.AgentEvent}

theorem carried_pumpUp (h : c.pumpUp w = some c') : c'.carried = c.carried := by
  obtain ⟨event, rest, houtbound, -, rfl⟩ := pumpUp_eq_some h
  simp only [carried, ingesting, houtbound, List.append_assoc, List.singleton_append]

theorem carried_read (h : c.read = some c') : c'.carried = c.carried := by
  obtain ⟨event, rest, hserver, hupstream, rfl⟩ := read_eq_some h
  simp only [carried, ingesting, hserver, hupstream, List.nil_append, List.singleton_append]

/-- The event at the head is published, or forgotten. -/
theorem carried_ingested {sent : Except String Unit} (h : c.ingested sent = some (c', published)) :
    (published ++ c'.carried).Sublist c.carried := by
  obtain ⟨event, hserver, ⟨-, rfl, rfl⟩ | ⟨rfl, rfl⟩⟩ := ingested_eq_some h
  · simp only [carried, ingesting, hserver, List.nil_append, List.append_assoc]
    exact List.Sublist.refl _
  · simp only [carried, ingesting, hserver, List.nil_append, List.append_assoc]
    exact List.sublist_append_right _ _

/-- The server is past ingest before an acknowledgement goes out, and
after. -/
theorem carried_sendCommand (h : c.sendCommand = some c') : c'.carried = c.carried := by
  obtain ⟨q, hserver, ⟨-, rfl⟩ | ⟨-, -, rfl⟩⟩ := sendCommand_eq_some h
  · rw [carried, carried, ingesting, ingesting, hserver]
  · rw [carried, carried, ingesting, ingesting, hserver]

theorem carried_serverStop (h : c.serverStop = some c') : c'.carried = c.carried := by
  obtain ⟨hserver, -, rfl⟩ := serverStop_eq_some h
  rw [carried, carried, ingesting, ingesting, hserver]

theorem carried_breakDown (c : Connection) : c.breakDown.carried.Sublist c.carried :=
  (List.append_sublist_append_left _).2 (List.nil_sublist _)

/-- **A connection publishes what it carries, in its order**: a step
publishes the event at the head or nothing, and the others stay in line. -/
theorem carried_step (h : c.step w a = some (c', published)) :
    (published ++ c'.carried).Sublist c.carried := by
  cases a with
  | ingested sent => exact carried_ingested h
  | breakDown =>
    cases h
    exact carried_breakDown c
  | pumpUp =>
    obtain ⟨hstep, rfl⟩ := quiet_of_map h
    exact carried_pumpUp hstep ▸ List.Sublist.refl _
  | read =>
    obtain ⟨hstep, rfl⟩ := quiet_of_map h
    exact carried_read hstep ▸ List.Sublist.refl _
  | sendCommand =>
    obtain ⟨hstep, rfl⟩ := quiet_of_map h
    exact carried_sendCommand hstep ▸ List.Sublist.refl _
  | serverStop =>
    obtain ⟨hstep, rfl⟩ := quiet_of_map h
    exact carried_serverStop hstep ▸ List.Sublist.refl _
  | pumpDown =>
    obtain ⟨hstep, rfl⟩ := quiet_of_map h
    obtain ⟨q, rest, -, -, -, rfl⟩ := pumpDown_eq_some hstep
    exact List.Sublist.refl _
  | forward =>
    obtain ⟨hstep, rfl⟩ := quiet_of_map h
    obtain ⟨q, rest, -, -, rfl⟩ := forward_eq_some hstep
    exact List.Sublist.refl _
  | deliver =>
    obtain ⟨hstep, rfl⟩ := quiet_of_map h
    obtain ⟨q, -, ⟨-, rfl⟩ | ⟨-, -, rfl⟩⟩ := deliver_eq_some hstep
    · exact List.Sublist.refl _
    · exact List.Sublist.refl _
  | forwarderStop =>
    obtain ⟨hstep, rfl⟩ := quiet_of_map h
    obtain ⟨-, -, rfl⟩ := forwarderStop_eq_some hstep
    exact List.Sublist.refl _

/-- Only an ingest that succeeds publishes. -/
theorem published_eq_nil (ha : a ≠ .ingested (.ok ())) (h : c.step w a = some (c', published)) :
    published = [] := by
  cases a with
  | ingested sent =>
    obtain ⟨event, -, ⟨rfl, -⟩ | ⟨-, hnone⟩⟩ := ingested_eq_some h
    · exact absurd rfl ha
    · exact hnone
  | breakDown =>
    cases h
    rfl
  | _ => exact (quiet_of_map h).2

end Connection

/-! ## The agent -/

variable (codec : JsonCodec)

/-- What texts are sent as: those that are JSON, each as its event. -/
def sentAs (events : List String) : List Proto.AgentEvent :=
  (events.filterMap codec.ofText).map (protoEvent codec)

/-- What is left to send of the batch the drain loop has in its hands. -/
def DrainPc.unsent : DrainPc → List Proto.AgentEvent
  | idle => []
  | locking _ batch => batch.map (protoEvent codec)
  | sending _ batch i => (batch.drop i).map (protoEvent codec)
  | requeueing _ => []

namespace AgentState

/-- What the agent has still to publish over the connection it holds, the
next one first. -/
def line (s : AgentState) : List Proto.AgentEvent :=
  s.current.carried ++ s.drain.unsent codec ++ sentAs codec s.buffer.payloads

/-- What the connections it has let go may still publish. -/
def late (s : AgentState) : List Proto.AgentEvent := s.old.flatMap Connection.carried

/-- The texts a step puts at the end of the buffer: an event the collector
pushes, or one of a batch that failed. -/
def putIn (s : AgentState) : AgentAction → List String
  | .push event_json fault => if fault = some .insert then [] else [event_json]
  | .requeue _ =>
    match s.drain with
    | .requeueing (event :: _) => [event]
    | _ => []
  | _ => []

/-- The texts of failed batches a step puts back. -/
def putBack (s : AgentState) : AgentAction → List String
  | .requeue fault => s.putIn (.requeue fault)
  | _ => []

variable {codec} {config : AgentConfig} {s t : AgentState} {a : AgentAction}

@[simp] theorem sentAs_nil : sentAs codec [] = [] := rfl

theorem sentAs_append (l l' : List String) :
    sentAs codec (l ++ l') = sentAs codec l ++ sentAs codec l' := by
  rw [sentAs, List.filterMap_append, List.map_append]
  rfl

theorem sentAs_sublist {l l' : List String} (h : l.Sublist l') :
    (sentAs codec l).Sublist (sentAs codec l') := (h.filterMap _).map _

/-! ## What a step does to the line -/

/-- **What a step does to the line**: what it publishes of the line was at
its head, what is new is at its end, and what else it publishes comes from
a connection that was let go. -/
structure Onward (codec : JsonCodec) (s t : AgentState) (put : List String)
    (own others : List Proto.AgentEvent) : Prop where
  published : t.published = s.published ++ (own ++ others)
  line : (own ++ t.line codec).Sublist (s.line codec ++ sentAs codec put)
  /-- No event is there more often than it was, or is new. -/
  count : ∀ event, own.count event + (t.line codec).count event +
      (others.count event + t.late.count event) ≤
    (s.line codec).count event + (sentAs codec put).count event + s.late.count event

/-- A step that leaves the old connections alone. -/
theorem onward_of_line {put : List String} {own : List Proto.AgentEvent}
    (hpublished : t.published = s.published ++ own) (hold : t.old = s.old)
    (hline : (own ++ t.line codec).Sublist (s.line codec ++ sentAs codec put)) :
    Onward codec s t put own [] where
  published := by rw [hpublished, List.append_nil]
  line := hline
  count event := by
    have hcount := hline.count_le event
    rw [List.count_append, List.count_append] at hcount
    rw [late, late, hold, List.count_nil]
    omega

/-- And publishes nothing. -/
theorem onward_quiet {put : List String} (hpublished : t.published = s.published)
    (hold : t.old = s.old) (hline : (t.line codec).Sublist (s.line codec ++ sentAs codec put)) :
    Onward codec s t put [] [] :=
  onward_of_line (hpublished.trans (List.append_nil _).symm) hold hline

/-- A step that leaves the line as it is. -/
theorem onward_of_eq (hpublished : t.published = s.published) (hold : t.old = s.old)
    (hcurrent : t.current.carried = s.current.carried)
    (hdrain : t.drain.unsent codec = s.drain.unsent codec) (hbuffer : t.buffer = s.buffer) :
    Onward codec s t [] [] [] := by
  refine onward_quiet hpublished hold ?_
  rw [line, line, hcurrent, hdrain, hbuffer]
  exact List.sublist_append_left _ _

/-- What is put into the buffer comes to the end of the line. What it
evicts was at the head of the buffer. -/
theorem onward_putIn {b : EventBuffer} {event : String} {k : ℕ}
    (hb : b.payloads = (s.buffer.payloads ++ [event]).drop k)
    (hpublished : t.published = s.published) (hold : t.old = s.old)
    (hcurrent : t.current = s.current) (hdrain : t.drain.unsent codec = s.drain.unsent codec)
    (hbuffer : t.buffer = b) : Onward codec s t [event] [] [] := by
  refine onward_quiet hpublished hold ?_
  rw [line, line, hcurrent, hdrain, hbuffer, hb, List.append_assoc _ _ (sentAs codec [event]),
    ← sentAs_append]
  exact (List.append_sublist_append_left _).2 (sentAs_sublist (List.drop_sublist k _))

/-- A push puts its event in, unless it fails at once. -/
theorem onward_push (s : AgentState) (event_json : String) (fault : Option PushFault) :
    Onward codec s (s.push event_json fault) (s.putIn (.push event_json fault)) [] [] := by
  rcases s.buffer.push_cases event_json fault with ⟨hfault, e, hpush⟩ | ⟨hfault, r, b, k, hpush, hb⟩
  · have hput : s.putIn (.push event_json fault) = [] := if_pos hfault
    rw [hput]
    refine onward_of_eq rfl rfl rfl rfl ?_
    simp only [push, hpush]
  · have hput : s.putIn (.push event_json fault) = [event_json] := if_neg hfault
    rw [hput]
    refine onward_putIn hb rfl rfl rfl rfl ?_
    simp only [push, hpush]

/-- So does a batch that goes back, one text at a time. -/
theorem onward_requeue {fault : Option PushFault} (ht : s.requeue fault = some t) :
    Onward codec s t (s.putIn (.requeue fault)) [] [] := by
  obtain ⟨event, rest, hdrain, hput⟩ := requeue_eq_some ht
  have hputIn : s.putIn (.requeue fault) = [event] := by
    simp only [putIn, hdrain]
  have hunsent : s.drain.unsent codec = [] := by rw [hdrain, DrainPc.unsent]
  rw [hputIn]
  rcases hput with rfl | ⟨b, k, hb, rfl⟩
  · refine onward_quiet rfl rfl ?_
    rw [line, line, hunsent, DrainPc.unsent]
    exact List.sublist_append_left _ _
  · exact onward_putIn hb rfl rfl rfl hunsent.symm rfl

/-- A tick moves the head of the buffer into the batch. -/
theorem onward_drainTick {fault : Option String} (ht : s.drainTick codec config fault = some t) :
    Onward codec s t [] [] [] := by
  obtain ⟨hdrain, ⟨-, rfl⟩ | ⟨-, b, hb, rfl⟩⟩ := drainTick_eq_some ht
  · exact onward_of_eq rfl rfl rfl rfl rfl
  · refine onward_quiet rfl rfl ?_
    -- what the batch is made of is in line before what stays in the buffer
    have hbatch : ∀ batch events,
        (if batch = [] then DrainPc.idle else .locking events batch).unsent codec =
          batch.map (protoEvent codec) := by
      intro batch events
      split
      · next hnone => rw [hnone]; rfl
      · rfl
    have hidle : s.drain.unsent codec = [] := by rw [hdrain, DrainPc.unsent]
    rw [line, line, hbatch, hidle, hb]
    have hsplit : sentAs codec s.buffer.payloads =
        sentAs codec (s.buffer.payloads.take config.batch_size) ++
          sentAs codec (s.buffer.payloads.drop config.batch_size) := by
      rw [← sentAs_append, List.take_append_drop]
    rw [hsplit, List.append_nil, List.append_assoc]
    exact List.sublist_append_left _ _

/-- An event sent goes from the head of the batch to the end of the outbound
channel. A batch that fails leaves the line. -/
theorem onward_sendEvent (ht : s.sendEvent codec = some t) : Onward codec s t [] [] [] := by
  obtain ⟨events, batch, i, val, hdrain, hval, hsent⟩ := sendEvent_eq_some ht
  have hunsent : s.drain.unsent codec = (batch.drop i).map (protoEvent codec) := by
    rw [hdrain, DrainPc.unsent]
  rcases hsent with ⟨-, rfl⟩ | ⟨-, -, rfl⟩
  · refine onward_quiet rfl rfl ?_
    rw [line, line, DrainPc.unsent, List.append_nil]
    exact ((List.sublist_append_left _ _).append (List.Sublist.refl _)).trans
      (List.sublist_append_left _ _)
  · refine onward_quiet rfl rfl ?_
    obtain ⟨hlt, hget⟩ := List.getElem?_eq_some_iff.1 hval
    have hhead : batch.drop i = val :: batch.drop (i + 1) := by
      rw [List.drop_eq_getElem_cons hlt, hget]
    rw [line, line, hunsent, hhead]
    simp only [Connection.carried, Connection.ingesting, DrainPc.unsent, List.map_cons,
      List.append_assoc, List.cons_append, sentAs_nil, List.append_nil]
    exact List.Sublist.refl _

/-- What the current connection publishes was at the head of the line. -/
theorem onward_currentStep {a : ConnectionAction} (ht : s.currentStep config a = some t) :
    ∃ own, Onward codec s t [] own [] := by
  obtain ⟨c, published, hstep, rfl⟩ := currentStep_eq_some ht
  refine ⟨published, onward_of_line rfl rfl ?_⟩
  rw [line, line, sentAs_nil, List.append_nil]
  simp only [← List.append_assoc]
  exact ((Connection.carried_step hstep).append (List.Sublist.refl _)).append (List.Sublist.refl _)

/-- A step of one of the connections let go, of what it carries. -/
theorem count_flatMap_set {l : List Connection} {i : ℕ} {c c' : Connection}
    {published : List Proto.AgentEvent} (hc : l[i]? = some c)
    (hcarried : (published ++ c'.carried).Sublist c.carried) (event : Proto.AgentEvent) :
    published.count event + ((l.set i c').flatMap Connection.carried).count event ≤
      (l.flatMap Connection.carried).count event := by
  have hcount := hcarried.count_le event
  rw [List.count_append] at hcount
  induction l generalizing i with
  | nil => cases hc
  | cons d l ih =>
    cases i with
    | zero =>
      obtain rfl := Option.some.inj hc
      rw [List.set_cons_zero, List.flatMap_cons, List.flatMap_cons, List.count_append,
        List.count_append]
      omega
    | succ i =>
      have hrest := ih (i := i) hc
      rw [List.set_cons_succ, List.flatMap_cons, List.flatMap_cons, List.count_append,
        List.count_append]
      omega

/-- What an old connection publishes, it carried. -/
theorem onward_oldStep {i : ℕ} {a : ConnectionAction} (ht : s.oldStep config i a = some t) :
    ∃ others, Onward codec s t [] [] others ∧ (a ≠ .ingested (.ok ()) → others = []) := by
  obtain ⟨c, c', published, hc, hstep, rfl⟩ := oldStep_eq_some ht
  refine ⟨published, ⟨rfl, ?_, fun event => ?_⟩, fun ha => ?_⟩
  · exact List.sublist_append_left _ _
  · have hlate := count_flatMap_set hc (Connection.carried_step hstep) event
    rw [sentAs_nil, List.count_nil]
    simp only [line, late] at hlate ⊢
    omega
  · exact Connection.published_eq_nil ha hstep

/-- A connection that is let go takes what it carries with it. -/
theorem onward_letGo {c : Connection} (hpublished : t.published = s.published)
    (hold : t.old = c :: s.old) (hcarried : c.carried.Sublist s.current.carried)
    (hcurrent : t.current = .fresh)
    (hdrain : (t.drain.unsent codec).Sublist (s.drain.unsent codec))
    (hbuffer : t.buffer = s.buffer) : Onward codec s t [] [] [] where
  published := by rw [hpublished, List.append_nil, List.append_nil]
  line := by
    have hfresh : Connection.fresh.carried = [] := rfl
    rw [line, line, hcurrent, hfresh, hbuffer, sentAs_nil, List.append_nil]
    exact ((List.nil_sublist _).append hdrain).append (List.Sublist.refl _)
  count event := by
    have hfresh : Connection.fresh.carried = [] := rfl
    have hc := hcarried.count_le event
    have hd := hdrain.count_le event
    simp only [line, late, hold, hcurrent, hfresh, hbuffer, sentAs_nil, List.flatMap_cons,
      List.count_append, List.count_nil]
    omega

/-- **Every step moves the line on**, and only ingest on an old connection
publishes what is not at its head. -/
theorem onward_step (ht : (machine codec config).step s a = some t) :
    ∃ own others, Onward codec s t (s.putIn a) own others ∧
      ((∀ i, a ≠ .old i (.ingested (.ok ()))) → others = []) := by
  cases a with
  | push event_json fault =>
    obtain rfl := Option.some.inj ht
    exact ⟨[], [], onward_push s event_json fault, fun _ => rfl⟩
  | drainTick fault => exact ⟨[], [], onward_drainTick ht, fun _ => rfl⟩
  | requeue fault => exact ⟨[], [], onward_requeue ht, fun _ => rfl⟩
  | sendEvent => exact ⟨[], [], onward_sendEvent ht, fun _ => rfl⟩
  | current a =>
    obtain ⟨own, h⟩ := onward_currentStep ht
    exact ⟨own, [], h, fun _ => rfl⟩
  | old i a =>
    obtain ⟨others, h, hnone⟩ := onward_oldStep ht
    exact ⟨[], others, h, fun ha => hnone fun heq => ha i (by rw [heq])⟩
  | crash =>
    obtain rfl := Option.some.inj ht
    exact ⟨[], [], onward_letGo rfl rfl s.current.detach.carried_breakDown rfl
      (List.nil_sublist _) rfl, fun _ => rfl⟩
  | connected ok =>
    obtain ⟨-, rfl | rfl⟩ := connected_eq_some ht
    · exact ⟨[], [], onward_letGo rfl rfl (List.Sublist.refl _) rfl (List.Sublist.refl _) rfl,
        fun _ => rfl⟩
    · exact ⟨[], [], onward_of_eq rfl rfl rfl rfl rfl, fun _ => rfl⟩
  | drainLock =>
    obtain ⟨events, batch, hdrain, -, rfl⟩ := drainLock_eq_some ht
    exact ⟨[], [], onward_of_eq rfl rfl rfl (by rw [hdrain]; rfl) rfl, fun _ => rfl⟩
  | sendDone =>
    obtain ⟨events, batch, i, hdrain, hdone, rfl⟩ := sendDone_eq_some ht
    have hnone : s.drain.unsent codec = [] := by
      rw [hdrain, DrainPc.unsent, List.drop_of_length_le hdone, List.map_nil]
    exact ⟨[], [], onward_of_eq rfl rfl rfl hnone.symm rfl, fun _ => rfl⟩
  | requeueDone =>
    obtain ⟨hdrain, rfl⟩ := requeueDone_eq_some ht
    exact ⟨[], [], onward_of_eq rfl rfl rfl (by rw [hdrain]; rfl) rfl, fun _ => rfl⟩
  | heartbeatTick =>
    obtain ⟨-, rfl⟩ := heartbeatTick_eq_some ht
    exact ⟨[], [], onward_of_eq rfl rfl rfl rfl rfl, fun _ => rfl⟩
  | heartbeatLock =>
    obtain ⟨n, -, -, rfl⟩ := heartbeatLock_eq_some ht
    exact ⟨[], [], onward_of_eq rfl rfl rfl rfl rfl, fun _ => rfl⟩
  | heartbeatAnswer =>
    obtain ⟨n, -, rfl⟩ := heartbeatAnswer_eq_some ht
    exact ⟨[], [], onward_of_eq rfl rfl rfl rfl rfl, fun _ => rfl⟩
  | poll =>
    obtain ⟨-, -, ⟨q, rest, -, rfl⟩ | ⟨pc, -, rfl⟩⟩ := poll_eq_some ht
    · exact ⟨[], [], onward_of_eq rfl rfl rfl rfl rfl, fun _ => rfl⟩
    · exact ⟨[], [], onward_of_eq rfl rfl rfl rfl rfl, fun _ => rfl⟩
  | handle =>
    obtain ⟨q, -, rfl⟩ := handle_eq_some ht
    exact ⟨[], [], onward_of_eq rfl rfl rfl rfl rfl, fun _ => rfl⟩
  | wake =>
    obtain ⟨-, rfl⟩ := wake_eq_some ht
    exact ⟨[], [], onward_of_eq rfl rfl rfl rfl rfl, fun _ => rfl⟩
  | connectLock =>
    obtain ⟨-, -, rfl⟩ := connectLock_eq_some ht
    exact ⟨[], [], onward_of_eq rfl rfl rfl rfl rfl, fun _ => rfl⟩

/-- Only the collector pushes. -/
theorem pushed_eq (ha : ∀ event_json fault, a ≠ .push event_json fault)
    (ht : (machine codec config).step s a = some t) : t.pushed = s.pushed := by
  rcases step_cases ht with ⟨h, -⟩ | ⟨e, fault, -, heq⟩ | ⟨fault, h, -⟩ | ⟨fault, h, -⟩
  · exact h.pushed
  · exact absurd heq (ha e fault)
  · obtain ⟨-, ⟨-, rfl⟩ | ⟨-, b, -, rfl⟩⟩ := drainTick_eq_some h
    · rfl
    · rfl
  · obtain ⟨e, rest, -, rfl | ⟨b, k, -, rfl⟩⟩ := requeue_eq_some h
    · rfl
    · rfl

/-- What is put into the buffer the collector has pushed, or it goes
back. -/
theorem pushed_step (ht : (machine codec config).step s a = some t) :
    ∃ pushed, t.pushed = s.pushed ++ pushed ∧ s.putIn a = pushed ++ s.putBack a := by
  cases a with
  | push event_json fault =>
    obtain rfl := Option.some.inj ht
    refine ⟨s.putIn (.push event_json fault), ?_, (List.append_nil _).symm⟩
    show (if fault = some .insert then s.pushed else s.pushed ++ [event_json]) =
      s.pushed ++ if fault = some .insert then [] else [event_json]
    split
    · exact (List.append_nil _).symm
    · rfl
  | _ => exact ⟨[], (pushed_eq (by simp) ht).trans (List.append_nil _).symm, rfl⟩

/-! ## In order -/

/-- **Nothing breaks the line**: no batch goes back, and no connection that
was let go publishes. -/
def KeepsLine (_ : AgentState) : AgentAction → Prop
  | .requeue _ => False
  | .old _ (.ingested sent) => sent ≠ .ok ()
  | _ => True

/-- The events published, and after them those on the line, are events
pushed, in their order. -/
def InLine (codec : JsonCodec) (s : AgentState) : Prop :=
  (s.published ++ s.line codec).Sublist (sentAs codec s.pushed)

theorem inLine_step (hs : InLine codec s) (ha : KeepsLine s a)
    (ht : (machine codec config).step s a = some t) : InLine codec t := by
  obtain ⟨own, others, hon, hothers⟩ := onward_step ht
  obtain rfl := hothers fun i heq => by
    rw [heq] at ha
    exact ha rfl
  obtain ⟨pushed, hpushed, hput⟩ := pushed_step ht
  have hback : s.putBack a = [] := by
    cases a with
    | requeue fault => exact ha.elim
    | _ => rfl
  rw [hback, List.append_nil] at hput
  have hline := hon.line
  rw [hput] at hline
  rw [InLine, hon.published, hpushed, sentAs_append, List.append_nil, List.append_assoc]
  -- what is published of the line was at its head, and what is new comes to the end
  calc (s.published ++ (own ++ t.line codec)).Sublist
        (s.published ++ (s.line codec ++ sentAs codec pushed)) := (List.Sublist.refl _).append hline
    _ = (s.published ++ s.line codec) ++ sentAs codec pushed := (List.append_assoc _ _ _).symm
    (s.published ++ s.line codec ++ sentAs codec pushed).Sublist
        (sentAs codec s.pushed ++ sentAs codec pushed) := hs.append (List.Sublist.refl _)

/-- **Events are published in the order in which they were pushed, and none
twice**, whatever is lost on the way, along a run in which nothing breaks
the line. -/
theorem published_inOrder {l : List AgentAction}
    (hkeeps : (machine codec config).EveryStep KeepsLine (init config) l)
    (hrun : (machine codec config).run (init config) l = some t) :
    t.published.Sublist (sentAs codec t.pushed) := by
  have hinit : InLine codec (init config) := List.Sublist.refl _
  have halways : (machine codec config).Always (InLine codec) (init config) l :=
    Machine.always_of_everyStep (fun _ _ _ => inLine_step) hinit hkeeps
  exact (List.sublist_append_left _ _).trans (halways.last hrun)

/-- The text of another event. -/
def anotherEvent : String := JsonText.codec.toText (Json.object [("sequence_id", .str "s2")])

/-- A crash with the first event in hand, after which the second is sent. -/
def crashing : List AgentAction :=
  [.push anEvent none, .drainTick none, .crash, .push anotherEvent none, .drainTick none,
    .drainLock, .sendEvent, .current .pumpUp, .current .read, .current (.ingested (.ok ()))]

/-- The first event is lost, and the second is published. -/
theorem published_inOrder_crashing : ∃ t,
    (machine JsonText.codec tenAtATime).run (init tenAtATime) crashing = some t ∧
      (∃ event, t.published = [event] ∧ event.sequence_id = "s2") ∧
        t.published.Sublist (sentAs JsonText.codec t.pushed) := by
  have hkeeps : (machine JsonText.codec tenAtATime).EveryStep KeepsLine (init tenAtATime)
      crashing := Machine.everyStep_of_forall (by simp [crashing, KeepsLine])
  exact ⟨_, rfl, ⟨_, rfl, rfl⟩, published_inOrder hkeeps rfl⟩

/-! ## How often -/

/-- What was put into the buffer is published or may yet be, once each time
it was put in. -/
theorem count_step (event : Proto.AgentEvent) (ht : (machine codec config).step s a = some t) :
    t.published.count event + (t.line codec).count event + t.late.count event +
        (sentAs codec s.pushed).count event ≤
      s.published.count event + (s.line codec).count event + s.late.count event +
        (sentAs codec t.pushed).count event + (sentAs codec (s.putBack a)).count event := by
  obtain ⟨own, others, hon, -⟩ := onward_step ht
  obtain ⟨pushed, hpushed, hput⟩ := pushed_step ht
  have hcount := hon.count event
  rw [hput, sentAs_append, List.count_append] at hcount
  rw [hon.published, hpushed, sentAs_append, List.count_append, List.count_append,
    List.count_append]
  omega

/-- **No event is published more often than it was put into the buffer**:
once for each time the collector pushed it, and once for each time it went
back with a batch that failed. -/
theorem published_accounted {l : List AgentAction}
    (hrun : (machine codec config).run (init config) l = some t) (event : Proto.AgentEvent) :
    t.published.count event ≤ (sentAs codec t.pushed).count event +
      (sentAs codec ((machine codec config).gathered putBack (init config) l)).count event := by
  have hworth : ∀ k k', (sentAs codec (k ++ k')).count event =
      (sentAs codec k).count event + (sentAs codec k').count event := by
    intro k k'
    rw [sentAs_append, List.count_append]
  have hall := Machine.run_accounts
    (fun s : AgentState =>
      s.published.count event + (s.line codec).count event + s.late.count event)
    (fun s => (sentAs codec s.pushed).count event) (fun k => (sentAs codec k).count event) hworth
    (fun _ _ _ => count_step event) hrun
  -- at the start nothing is published, on the line, or pushed
  have hspent : (init config).published.count event + ((init config).line codec).count event +
      (init config).late.count event = 0 := rfl
  have hpushed : (sentAs codec (init config).pushed).count event = 0 := rfl
  omega

/-- A batch of two that fails after its first event was published, and goes
back. -/
def resending : List AgentAction :=
  [.push anEvent none, .push anotherEvent none, .drainTick none, .drainLock, .sendEvent,
    .current .pumpUp, .current .read, .current (.ingested (.ok ())), .current .breakDown,
    .sendEvent, .requeue none, .requeue none, .requeueDone, .current .sendCommand,
    .current .forwarderStop, .poll, .connectLock, .connected true, .drainTick none, .drainLock,
    .sendEvent, .current .pumpUp, .current .read, .current (.ingested (.ok ()))]

/-- The first event is published twice: it was pushed once, and went back
once. -/
theorem published_accounted_resending : ∃ t,
    (machine JsonText.codec tenAtATime).run (init tenAtATime) resending = some t ∧
      ∃ event, t.published = [event, event] ∧
        t.published.count event ≤ (sentAs JsonText.codec t.pushed).count event +
          (sentAs JsonText.codec ((machine JsonText.codec tenAtATime).gathered putBack
            (init tenAtATime) resending)).count event :=
  ⟨_, rfl, _, rfl, published_accounted rfl _⟩

end AgentState

end AigisZero.Stream
