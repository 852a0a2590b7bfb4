import AigisZero.Backend.Containment

/-!
# What comes of an operator's command

A call that returns says whether its command was dispatched. The Fleet
Server has no call that takes a command, and the task of a stream writes
acknowledgements only. So no run writes an `IsolateCommand`, and every
answer that says so is false.
-/

namespace AigisZero.Backend

open Fleet (Faults IsolateNodeResponse Jwt OpenStream Server ServerAction Tables serverCommand
  update_operator_status validate_token)

namespace Control

variable (text : UuidText) (codec : JsonCodec) (jwt : Jwt) (enrollment_secret : Option String)
  (topic : String)

/-- An `IsolateCommand` is on a stream. -/
def IsCommanded (isolate : Bool) (st : OpenStream) : Prop :=
  ∃ reason, .isolate isolate reason ∈ st.commands.map serverCommand

/-- **An answer is true**: where a call says that its command was
dispatched, it was written to a stream of its node. -/
def Truthful (s : Control) : Prop :=
  ∀ c ∈ s.calls, ∀ res, c.pc = .returned (.ok res) → res.command_dispatched = true →
    ∃ st ∈ s.server.streams, text.parse st.claims.node_id = .ok c.command.node_id ∧
      IsCommanded c.command.isolate st

/-- **An agent can be reached**: from here some run writes an
`IsolateCommand` to each stream that is open. -/
def Reachable (s : Control) : Prop :=
  ∀ (i : ℕ) (st : OpenStream), s.server.streams[i]? = some st → st.closed = false →
    ∃ l t st', (machine text codec jwt enrollment_secret topic).run s l = some t ∧
      t.server.streams[i]? = some st' ∧ IsCommanded true st'

/-- No stream is open. -/
def AllClosed (server : Server) : Prop :=
  ∀ (i : ℕ) (st : OpenStream), server.streams[i]? = some st → st.closed = true

/-- No call comes to its second step, and no stream is opened. -/
def Uncommanded (s : Control) : ControlAction → Prop
  | .dispatch _ _ => False
  | .server (.event_stream metadata) =>
    ∀ claims, validate_token jwt s.server.now metadata ≠ .ok claims
  | _ => True

/-- Every call that has set the status will say that its command was
dispatched. -/
def Promises (s : Control) : Prop :=
  ∀ c ∈ s.calls, ∀ res, c.pc = .dispatching res → res.command_dispatched = true

variable {text codec jwt enrollment_secret topic} {s t : Control} {a : ControlAction}

/-! ## What a stream can carry -/

/-- **The task of a stream writes acknowledgements only.** -/
theorem not_isCommanded (isolate : Bool) (st : OpenStream) : ¬IsCommanded isolate st := by
  rintro ⟨reason, hmem⟩
  obtain ⟨command, -, heq⟩ := List.mem_map.1 hmem
  cases command with
  | ack sequence_id => cases heq

theorem truthful_iff : Truthful text s ↔
    ∀ c ∈ s.calls, ∀ res, c.pc = .returned (.ok res) → res.command_dispatched = false := by
  refine forall₂_congr fun c hc => forall₂_congr fun res hpc => ?_
  constructor
  · intro h
    refine Bool.eq_false_of_not_eq_true fun hdispatched => ?_
    obtain ⟨st, -, -, hcommanded⟩ := h hdispatched
    exact not_isCommanded _ _ hcommanded
  · intro h hdispatched
    rw [h] at hdispatched
    cases hdispatched

theorem reachable_iff : Reachable text codec jwt enrollment_secret topic s ↔
    AllClosed s.server := by
  refine forall₂_congr fun i st => forall_congr' fun hst => ?_
  constructor
  · intro h
    refine Bool.eq_true_of_not_eq_false fun hopen => ?_
    obtain ⟨_, _, st', -, -, hcommanded⟩ := h hopen
    exact not_isCommanded _ _ hcommanded
  · intro h hopen
    rw [h] at hopen
    cases hopen

/-! ## One step -/

/-- **An answer says that the command was dispatched**, before it is. -/
theorem command_dispatched_of_ok {target_id : Uuid} {status : String} {now : ℕ} {faults : Faults}
    {tables tables' : Tables} {res : IsolateNodeResponse}
    (h : update_operator_status text target_id status now faults tables = (.ok res, tables')) :
    res.command_dispatched = true := by
  unfold update_operator_status at h
  split at h
  · cases h
  · cases h
  · dsimp only at h
    split at h
    · cases h
    · cases h
      rfl

/-- A call of the server that leaves the streams alone. -/
theorem AllClosed.congr {server server' : Server} (h : AllClosed server)
    (hstreams : server'.streams = server.streams) : AllClosed server' := by
  intro i st hst
  rw [hstreams] at hst
  exact h i st hst

theorem AllClosed.closeStream {server : Server} (h : AllClosed server) {i : ℕ} {st : OpenStream} :
    AllClosed { server with streams := server.streams.set i { st with closed := true } } := by
  intro j st' hst'
  rcases Calls.getElem?_set_cases hst' with ⟨-, rfl⟩ | ⟨-, hst'⟩
  · rfl
  · exact h j st' hst'

/-- The stream a good token opens is open. -/
theorem allClosed_event_stream_iff {server : Server} (h : AllClosed server)
    (metadata : Fleet.Metadata) : AllClosed (server.event_stream jwt metadata) ↔
      ∀ claims, validate_token jwt server.now metadata ≠ .ok claims := by
  unfold Server.event_stream
  cases hvalid : validate_token jwt server.now metadata with
  | error e => exact iff_of_true h fun claims hok => by cases hok
  | ok claims =>
    refine iff_of_false (fun hclosed => ?_) fun hinvalid => hinvalid claims rfl
    have hopen := hclosed server.streams.length ⟨claims, [], false⟩ List.getElem?_concat_length
    cases hopen

/-- **A stream is opened by a good token, and by nothing else.** -/
theorem allClosed_step_iff {server server' : Server} {b : ServerAction} (h : AllClosed server)
    (ht : (Server.machine text codec jwt enrollment_secret topic).step server b = some server') :
    AllClosed server' ↔ ∀ metadata, b = .event_stream metadata → ∀ claims,
      validate_token jwt server.now metadata ≠ .ok claims := by
  cases b with
  | tick elapsed =>
    obtain rfl := Option.some.inj ht
    exact iff_of_true (h.congr rfl) fun _ heq => by cases heq
  | register_agent metadata reg draw faults =>
    obtain rfl := Option.some.inj ht
    refine iff_of_true (h.congr ?_) fun _ heq => by cases heq
    unfold Server.register
    dsimp only
    split <;> rfl
  | event_stream metadata =>
    obtain ⟨-, ht⟩ := Option.ite_none_right_eq_some.1 ht
    obtain rfl := Option.some.inj ht
    rw [allClosed_event_stream_iff h]
    constructor
    · rintro hinvalid _ heq
      cases heq
      exact hinvalid
    · exact fun hinvalid => hinvalid metadata rfl
  | message i event drawn sent =>
    -- a message comes on an open stream, and there is none
    have hmessage : server.message text codec topic i event drawn sent = some server' := ht
    unfold Server.message at hmessage
    split at hmessage
    · next hst =>
      have hclosed := h i _ hst
      cases hclosed
    · cases hmessage
  | closeStream i =>
    obtain ⟨st, hst, rfl⟩ := Option.map_eq_some_iff.1 ht
    exact iff_of_true h.closeStream fun _ heq => by cases heq
  | heartbeat metadata hb health_id faults =>
    obtain ⟨-, ht⟩ := Option.ite_none_right_eq_some.1 ht
    obtain rfl := Option.some.inj ht
    refine iff_of_true (h.congr ?_) fun _ heq => by cases heq
    unfold Server.heartbeat
    split <;> rfl

/-- Every step keeps the promises. -/
theorem promises_step (h : Promises s)
    (ht : (machine text codec jwt enrollment_secret topic).step s a = some t) : Promises t := by
  cases a with
  | server b =>
    obtain ⟨server', -, rfl⟩ := Option.map_eq_some_iff.1 ht
    exact h
  | isolate_node _ _ | unisolate_node _ =>
    obtain rfl := Option.some.inj ht
    exact List.forall_mem_append.2 ⟨h, List.forall_mem_singleton.2 fun res hpc => by cases hpc⟩
  | update i now faults =>
    obtain ⟨command, result, tables, hcall, hupdate, rfl⟩ := update_eq_some ht
    refine Calls.forall_mem_set h fun res hpc => ?_
    cases result with
    | error e => cases hpc
    | ok res' =>
      cases hpc
      exact command_dispatched_of_ok hupdate
  | dispatch i connect =>
    obtain ⟨command, res, hcall, rfl⟩ := dispatch_eq_some ht
    exact Calls.forall_mem_set h fun res' hpc => by cases hpc

/-- **One step keeps the answers true and the agents within reach exactly
when it neither returns from a call nor opens a stream.** -/
theorem truthful_step_iff (hpromises : Promises s) (htruthful : Truthful text s)
    (hreachable : Reachable text codec jwt enrollment_secret topic s)
    (ht : (machine text codec jwt enrollment_secret topic).step s a = some t) :
    (Truthful text t ∧ Reachable text codec jwt enrollment_secret topic t) ↔
      Uncommanded jwt s a := by
  rw [truthful_iff] at htruthful
  rw [reachable_iff] at hreachable
  rw [truthful_iff, reachable_iff]
  cases a with
  | server b =>
    obtain ⟨server', hstep, rfl⟩ := Option.map_eq_some_iff.1 ht
    rw [allClosed_step_iff hreachable hstep]
    constructor
    · rintro ⟨-, hclosed⟩
      cases b with
      | event_stream metadata => exact hclosed metadata rfl
      | _ => trivial
    · intro huncommanded
      refine ⟨htruthful, fun metadata heq => ?_⟩
      subst heq
      exact huncommanded
  | isolate_node _ _ | unisolate_node _ =>
    obtain rfl := Option.some.inj ht
    refine iff_of_true ⟨List.forall_mem_append.2 ⟨htruthful, ?_⟩, hreachable⟩ trivial
    exact List.forall_mem_singleton.2 fun res hpc => by cases hpc
  | update i now faults =>
    obtain ⟨command, result, tables, hcall, -, rfl⟩ := update_eq_some ht
    refine iff_of_true ⟨Calls.forall_mem_set htruthful fun res hpc => ?_, hreachable.congr rfl⟩
      trivial
    cases result <;> cases hpc
  | dispatch i connect =>
    obtain ⟨command, res, hcall, rfl⟩ := dispatch_eq_some ht
    refine iff_of_false (fun hafter => ?_) id
    -- the answer says that the command was dispatched
    obtain ⟨hi, -⟩ := List.getElem?_eq_some_iff.1 hcall
    have hfalse := hafter.1 ⟨command, .returned (.ok res)⟩ (List.mem_set hi _) res rfl
    rw [hpromises _ (List.mem_of_getElem? hcall) res rfl] at hfalse
    cases hfalse

/-! ## Whole runs -/

/-- **When dispatch is truthful**: in a run of the API backend and the Fleet
Server every answer is true, and every agent with a stream within reach of
an operator, exactly as long as no call comes to its second step and no
stream is opened. -/
theorem truthful_iff_uncommanded (text : UuidText) (codec : JsonCodec) (jwt : Jwt)
    (enrollment_secret : Option String) (topic : String) (now : ℕ) (l : List ControlAction)
    (u : Control)
    (hrun : (machine text codec jwt enrollment_secret topic).run (init now) l = some u) :
    (machine text codec jwt enrollment_secret topic).Always
        (fun s => Truthful text s ∧ Reachable text codec jwt enrollment_secret topic s)
        (init now) l ↔
      (machine text codec jwt enrollment_secret topic).EveryStep (Uncommanded jwt) (init now) l :=
  Machine.always_iff_everyStep (fun _ _ _ h ht => promises_step h ht)
    (fun _ _ _ hpromises hs ht => truthful_step_iff hpromises hs.1 hs.2 ht)
    (fun _ hc => (List.not_mem_nil hc).elim)
    ⟨fun _ hc => (List.not_mem_nil hc).elim, fun _ _ hst => by cases hst⟩ hrun

/-- A machine enrolls and opens its stream, and an operator isolates it. -/
def isolated : List ControlAction :=
  [.server (.register_agent ⟨none, none⟩ ⟨"a", "linux", "1", "m1"⟩ ⟨⟨1⟩, ⟨11⟩, 0⟩ fun _ => none),
    .server (.event_stream ⟨some (utf8 "Bearer one"), none⟩), .isolate_node ⟨1⟩ none, updateOf 0,
    dispatchOf 0]

/-- A call that says its command was dispatched. -/
def saysDispatched (c : NodeCall) : Bool :=
  match c.pc with
  | .returned (.ok res) => res.command_dispatched
  | _ => false

/-- **The operator is told that the command was dispatched, and nothing is
on the stream.** -/
theorem not_truthful_isolated :
    ¬(machine .standard JsonText.codec Server.twoTokens none "agents_events").Always
        (fun s => Truthful .standard s ∧
          Reachable .standard JsonText.codec Server.twoTokens none "agents_events" s)
        (init 0) isolated := by
  intro h
  have hrun : ((machine .standard JsonText.codec Server.twoTokens none "agents_events").run
      (init 0) isolated).map (fun u => u.calls.any saysDispatched) = some true := rfl
  obtain ⟨u, hu, hany⟩ := Option.map_eq_some_iff.1 hrun
  obtain ⟨htruthful, -⟩ := h.last hu
  obtain ⟨c, hc, hsays⟩ := List.any_eq_true.1 hany
  unfold saysDispatched at hsays
  split at hsays
  · next res hpc =>
    obtain ⟨st, -, -, hcommanded⟩ := htruthful c hc res hpc hsays
    exact not_isCommanded _ _ hcommanded
  · cases hsays

/-- A call for a node there is not says nothing. -/
theorem truthful_unknown : ∃ u,
    (machine .standard JsonText.codec Server.twoTokens none "agents_events").run (init 0)
      [.isolate_node ⟨1⟩ none, updateOf 0] = some u ∧
    (machine .standard JsonText.codec Server.twoTokens none "agents_events").Always
      (fun s => Truthful .standard s ∧
        Reachable .standard JsonText.codec Server.twoTokens none "agents_events" s)
      (init 0) [.isolate_node ⟨1⟩ none, updateOf 0] := by
  obtain ⟨u, hu⟩ : ∃ u,
      (machine .standard JsonText.codec Server.twoTokens none "agents_events").run (init 0)
        [.isolate_node ⟨1⟩ none, updateOf 0] = some u := ⟨_, rfl⟩
  refine ⟨u, hu, (truthful_iff_uncommanded .standard JsonText.codec Server.twoTokens none
    "agents_events" 0 _ u hu).2 ?_⟩
  exact ⟨trivial, fun _ _ => ⟨trivial, fun _ _ => trivial⟩⟩

end Control

end AigisZero.Backend
