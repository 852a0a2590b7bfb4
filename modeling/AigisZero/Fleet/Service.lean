import AigisZero.Fleet.Auth
import AigisZero.Fleet.Ingest
import AigisZero.Library.JsonText

/-!
# The service and whom it acts for

The calls of the Fleet Server, from any number of clients in any order.
A token names a node, and so does every message and every heartbeat. The
service checks the token and then acts for the node that the message
names. This file says when the two are one.
-/

namespace AigisZero.Fleet

/-- A stream the server has opened: the claims of its token, and the
commands sent down to the agent. -/
structure OpenStream where
  claims : NodeClaims
  commands : List OutgoingCommand
  closed : Bool
deriving DecidableEq, Repr

/-- A publication, with the event it was made of and the claims of the
stream the event came on. -/
structure Publishing where
  claims : NodeClaims
  event : IncomingEvent
  publication : Publication
deriving DecidableEq, Repr

/-- The state of the server, with what it did for whom. -/
structure Server where
  /-- The clock, in seconds. -/
  now : ℕ
  tables : Tables
  streams : List OpenStream
  /-- The tokens handed out. -/
  issued : List String
  published : List Publishing
  /-- The nodes whose health history or status a call changed, with the
  claims of the call. -/
  changes : List (Uuid × Option NodeClaims)

/-- What can happen. -/
inductive ServerAction where
  | tick (elapsed : ℕ)
  | register_agent (metadata : Metadata) (reg : AgentRegistration) (draw : EnrollmentDraw)
    (faults : Faults)
  | event_stream (metadata : Metadata)
  /-- A message arrives on a stream, and the broker answers its publication. -/
  | message (stream : ℕ) (event : Proto.AgentEvent) (drawn : Uuid) (sent : Except String Unit)
  | closeStream (stream : ℕ)
  | heartbeat (metadata : Metadata) (hb : AgentHeartbeat) (health_id : Uuid) (faults : Faults)

/-- The heartbeats of a node, in the order they were recorded. -/
def healthHistory (t : Tables) (node_id : Uuid) : List NodeHealthRow :=
  t.node_health.filter (·.node_id = node_id)

/-- What the agent of a node last said of itself. -/
def agentStatus (t : Tables) (node_id : Uuid) : Option String :=
  (t.findNode node_id).map (·.agent_status)

/-- The nodes whose health history or status differ. -/
def changedNodes (before after : Tables) : List Uuid :=
  (before.nodes.map (·.node_id)).filter fun node_id =>
    healthHistory after node_id ≠ healthHistory before node_id ∨
      agentStatus after node_id ≠ agentStatus before node_id

namespace Server

variable (text : UuidText) (codec : JsonCodec) (jwt : Jwt) (enrollment_secret : Option String)
  (topic : String)

/-- The server before any call. -/
def init (now : ℕ) : Server := ⟨now, Tables.empty, [], [], [], []⟩

/-- The server with other tables, and the change put down to the claims. -/
def write (s : Server) (claims : Option NodeClaims) (tables : Tables) : Server :=
  { s with
    tables := tables
    changes := s.changes ++ (changedNodes s.tables tables).map fun node_id => (node_id, claims) }

/-- Nobody forges tokens: one that is good was handed out here. -/
def Unforged (s : Server) (metadata : Metadata) : Prop :=
  ∀ token ∈ (metadata.authorization.bind to_str).bind ( strip_prefix "Bearer "),
    (jwt.decode s.now token).toOption.isSome → token ∈ s.issued

instance (s : Server) (metadata : Metadata) : Decidable (s.Unforged jwt metadata) :=
  inferInstanceAs (Decidable (∀ token ∈ _, _ → _))

/-- A registration. -/
def register (s : Server) (metadata : Metadata) (reg : AgentRegistration) (draw : EnrollmentDraw)
    (faults : Faults) : Server :=
  let (result, tables) :=
    Fleet.register_agent text jwt enrollment_secret metadata reg draw faults (.ok s.now) s.tables
  let s := s.write none tables
  match result with
  | .error _ => s
  | .ok result => { s with issued := s.issued ++ [result.token] }

/-- `FleetServiceImpl::event_stream`: the claims stay with the stream. -/
def event_stream (s : Server) (metadata : Metadata) : Server :=
  match validate_token jwt s.now metadata with
  | .error _ => s
  | .ok claims => { s with streams := s.streams ++ [⟨claims, [], false⟩] }

/-- The loop of an open stream takes a message: the event goes to ingest
under the node the message names. -/
def message (s : Server) (i : ℕ) (event : Proto.AgentEvent) (drawn : Uuid)
    (sent : Except String Unit) : Option Server :=
  match s.streams[i]? with
  | some ⟨claims, commands, false⟩ =>
    match ingest_event (incoming event) sent with
    | .ok (some command) =>
      some { s with
        streams := s.streams.set i ⟨claims, commands ++ [command], false⟩
        published := s.published ++
          [⟨claims, incoming event, Fleet.published text codec topic (incoming event) drawn⟩] }
    | .ok none => some s
    | .error _ => some s
  | _ => none

/-- The stream of an agent ends. -/
def closeStream (s : Server) (i : ℕ) : Option Server :=
  (s.streams[i]?).map fun st => { s with streams := s.streams.set i { st with closed := true } }

/-- `FleetServiceImpl::heartbeat`: the token must be good, and its claims
are not looked at. -/
def heartbeat (s : Server) (metadata : Metadata) (hb : AgentHeartbeat) (health_id : Uuid)
    (faults : Faults) : Server :=
  match validate_token jwt s.now metadata with
  | .error _ => s
  | .ok claims =>
    s.write (some claims) (record_heartbeat text hb health_id s.now faults s.tables).2

/-- **The Fleet Server as a machine.** -/
def machine : Machine Server ServerAction where
  step s
    | .tick elapsed => some { s with now := s.now + elapsed }
    | .register_agent metadata reg draw faults =>
      some (s.register text jwt enrollment_secret metadata reg draw faults)
    | .event_stream metadata =>
      if s.Unforged jwt metadata then some (s.event_stream jwt metadata) else none
    | .message i event drawn sent => s.message text codec topic i event drawn sent
    | .closeStream i => s.closeStream i
    | .heartbeat metadata hb health_id faults =>
      if s.Unforged jwt metadata then some (s.heartbeat text jwt metadata hb health_id faults)
      else none

/-- **Every act is that of the node it is for**: an event is published
under the node of its stream's token, and the health of a node is changed
by calls with its token only. -/
structure Attributed (s : Server) : Prop where
  published : ∀ p ∈ s.published, p.event.node_id = p.claims.node_id
  changes : ∀ c ∈ s.changes, ∃ claims, c.2 = some claims ∧ text.parse claims.node_id = .ok c.1

/-- **A call names its own node**: the message the broker accepts names
the node of its stream's token, and the heartbeat that is recorded that of
its own. -/
def NamesItself (s : Server) : ServerAction → Prop
  | .message i event _ sent =>
    sent = .ok () → ∀ st, s.streams[i]? = some st → event.node_id = st.claims.node_id
  | .heartbeat metadata hb health_id faults =>
    ∀ claims, validate_token jwt s.now metadata = .ok claims →
      (record_heartbeat text hb health_id s.now faults s.tables).1 = .ok () →
        text.parse claims.node_id = text.parse hb.node_id
  | _ => True

end Server

/-! ## What the calls change -/

variable {text : UuidText} {t t' : Tables}

/-- A node that is there is found where it was, under more rows. -/
theorem findNode_append {node_id : Uuid} {rows : List NodeRow}
    (hnode : node_id ∈ t.nodes.map (·.node_id)) (hnodes : t'.nodes = t.nodes ++ rows) :
    t'.findNode node_id = t.findNode node_id := by
  obtain ⟨row, hrow, hid⟩ := List.mem_map.1 hnode
  have hsome : (t.nodes.find? (·.node_id = node_id)).isSome :=
    List.find?_isSome.2 ⟨row, hrow, by simpa using hid⟩
  rw [Tables.findNode, Tables.findNode, hnodes, List.find?_append, Option.or_of_isSome hsome]

/-- A node is found with what was set of it. -/
theorem findNode_updated {node_id target : Uuid} {set : NodeRow → NodeRow}
    (hnodes : t'.nodes = Tables.updated target set t.nodes)
    (hset : ∀ row, (set row).node_id = row.node_id) :
    t'.findNode node_id =
      (t.findNode node_id).map fun row => if row.node_id = target then set row else row := by
  rw [Tables.findNode, Tables.findNode, hnodes, Tables.updated, List.find?_map]
  congr 2
  funext row
  by_cases h : row.node_id = target <;> simp [h, hset]

/-- No enrollment touches the health history. -/
theorem upsert_node_health (text : UuidText) (record : NodeRecord) (draw : EnrollmentDraw)
    (faults : Faults) (t : Tables) :
    (upsert_node text record draw faults t).2.node_health = t.node_health := by
  unfold upsert_node
  cases faults .pool with
  | some e => rfl
  | none =>
    rcases transaction_cases faults (upsertBody record draw faults) t with
      ⟨e, h⟩ | ⟨id, t', h, hbody⟩
    · rw [h]
    · rw [h]
      simp only [upsertBody, bind_eq_ok, guard_eq_ok] at hbody
      obtain ⟨existing, -, ⟨node_id, event_type, t₁⟩, ⟨-, hwrite⟩, t₂, ⟨-, hevent⟩, hpure⟩ := hbody
      obtain ⟨rfl, rfl⟩ := Prod.mk.inj (Except.ok.inj hpure)
      obtain ⟨-, -, hhealth⟩ := insertEvent_eq_ok hevent
      refine hhealth.trans ?_
      cases existing with
      | none =>
        obtain ⟨t₁', hinsert, heq⟩ := map_eq_ok.1 hwrite
        cases heq
        exact (insertNode_eq_ok hinsert).2.2.2.2
      | some id =>
        cases hwrite
        rfl

/-- A new row is not of a node there is, and a refresh leaves the status of
its row. -/
theorem agentStatus_upsert_node (text : UuidText) (record : NodeRecord) (draw : EnrollmentDraw)
    (faults : Faults) {node_id : Uuid} (hnode : node_id ∈ t.nodes.map (·.node_id)) :
    agentStatus (upsert_node text record draw faults t).2 node_id = agentStatus t node_id := by
  unfold agentStatus
  rcases upsert_node_cases text record draw faults t with
    ⟨e, h⟩ | ⟨t', h, -, -, hnodes, -⟩ | ⟨row, -, t', -, h, hnodes, -⟩
  · rw [h]
  · rw [h, findNode_append hnode hnodes]
  · rw [h, findNode_updated hnodes fun _ => rfl, Option.map_map]
    congr 1
    funext row'
    by_cases hrow : row'.node_id = row.node_id <;> simp [hrow, reEnroll]

/-- **An enrollment changes the health of no node there is.** -/
theorem changedNodes_upsert_node (text : UuidText) (record : NodeRecord) (draw : EnrollmentDraw)
    (faults : Faults) (t : Tables) :
    changedNodes t (upsert_node text record draw faults t).2 = [] := by
  have hhealth := upsert_node_health text record draw faults t
  refine List.filter_eq_nil_iff.2 fun node_id hnode => ?_
  have hhistory : healthHistory (upsert_node text record draw faults t).2 node_id =
      healthHistory t node_id := by rw [healthHistory, hhealth, healthHistory]
  have hstatus := agentStatus_upsert_node text record draw faults hnode
  simp [hhistory, hstatus]

/-- A row of the history is of its node only. -/
theorem healthHistory_append {node_id : Uuid} {row : NodeHealthRow}
    (hhealth : t'.node_health = t.node_health ++ [row]) :
    healthHistory t' node_id =
      healthHistory t node_id ++ if row.node_id = node_id then [row] else [] := by
  rw [healthHistory, hhealth, List.filter_append, healthHistory]
  by_cases h : row.node_id = node_id <;> simp [h]

/-- And a status is set of its node only. -/
theorem agentStatus_updated {node_id target : Uuid} {status : String}
    (hnodes : t'.nodes = Tables.updated target (setAgentStatus status) t.nodes) :
    agentStatus t' node_id =
      (agentStatus t node_id).map fun old => if node_id = target then status else old := by
  rw [agentStatus, agentStatus, findNode_updated hnodes fun _ => rfl]
  cases hfind : t.findNode node_id with
  | none => rfl
  | some found =>
    have hid : found.node_id = node_id := by simpa using List.find?_some hfind
    by_cases h : node_id = target <;> simp [hid, h, setAgentStatus]

/-- **A heartbeat that is recorded changes the health of its node, and of
no other.** -/
theorem mem_changedNodes_heartbeat {hb : AgentHeartbeat} {health_id : Uuid} {now : ℕ}
    {faults : Faults} {node_id : Uuid} :
    node_id ∈ changedNodes t (record_heartbeat text hb health_id now faults t).2 ↔
      (record_heartbeat text hb health_id now faults t).1 = .ok () ∧
        text.parse hb.node_id = .ok node_id := by
  rcases record_heartbeat_cases text hb health_id now faults t with
    ⟨e, h⟩ | ⟨target, t', hparse, h, hmem, hnodes, -, hhealth⟩
  · rw [h]
    simp [changedNodes]
  · rw [h]
    simp only [hparse, Except.ok.injEq, true_and]
    obtain ⟨row, hrow, hhealth⟩ : ∃ row : NodeHealthRow,
        row.node_id = target ∧ t'.node_health = t.node_health ++ [row] := ⟨_, rfl, hhealth⟩
    have hhistory : healthHistory t' node_id = _ := healthHistory_append hhealth
    rw [hrow] at hhistory
    constructor
    · intro hchanged
      obtain ⟨-, hdiff⟩ := List.mem_filter.1 hchanged
      by_contra hne
      -- of another node neither the history nor the status is touched
      have hsame : healthHistory t' node_id = healthHistory t node_id := by
        rw [hhistory, if_neg hne, List.append_nil]
      have hstatus : agentStatus t' node_id = agentStatus t node_id := by
        rw [agentStatus_updated hnodes]
        simp [Ne.symm hne]
      simp [hsame, hstatus] at hdiff
    · rintro rfl
      refine List.mem_filter.2 ⟨hmem, ?_⟩
      have hdiff : healthHistory t' target ≠ healthHistory t target := by
        rw [hhistory, if_pos rfl]
        simp
      simp [hdiff]

/-! ## One step -/

namespace Server

variable {codec : JsonCodec} {jwt : Jwt} {enrollment_secret : Option String} {topic : String}
  {s s' : Server} {a : ServerAction}

/-- Where nothing is published and no node changed, all is as attributed
as before. -/
theorem Attributed.congr (hs : Attributed text s) (hpublished : s'.published = s.published)
    (hchanges : s'.changes = s.changes) : Attributed text s' :=
  ⟨hpublished ▸ hs.published, hchanges ▸ hs.changes⟩

theorem Attributed.register (hs : Attributed text s) {metadata : Metadata} {reg : AgentRegistration}
    {draw : EnrollmentDraw} {faults : Faults} :
    Attributed text (s.register text jwt enrollment_secret metadata reg draw faults) := by
  have hunchanged : changedNodes s.tables (Fleet.register_agent text jwt enrollment_secret metadata
      reg draw faults (.ok s.now) s.tables).2 = [] := by
    have htables : (Fleet.register_agent text jwt enrollment_secret metadata reg draw faults
        (.ok s.now) s.tables).2 = s.tables ∨ _ := register_agent_tables
    rcases htables with h | ⟨record, h⟩
    · rw [h]
      simp [changedNodes]
    · rw [h, changedNodes_upsert_node]
  have hchanges : (s.register text jwt enrollment_secret metadata reg draw faults).changes =
      s.changes := by
    unfold Server.register
    dsimp only
    split <;> simp [write, hunchanged]
  have hpublished : (s.register text jwt enrollment_secret metadata reg draw faults).published =
      s.published := by
    unfold Server.register
    dsimp only
    split <;> rfl
  exact hs.congr hpublished hchanges

/-- A message is attributed when the broker refuses it, or it names the
node of its stream. -/
theorem attributed_message_iff (hs : Attributed text s) {i : ℕ} {event : Proto.AgentEvent}
    {drawn : Uuid} {sent : Except String Unit}
    (ht : s.message text codec topic i event drawn sent = some s') :
    Attributed text s' ↔ NamesItself text jwt s (.message i event drawn sent) := by
  unfold message at ht
  split at ht
  · next claims commands hstream =>
    cases sent with
    | error e =>
      obtain rfl := Option.some.inj ht
      exact iff_of_true hs fun h => by cases h
    | ok =>
      obtain rfl := Option.some.inj ht
      constructor
      · intro ht _ st hst
        rw [hstream] at hst
        obtain rfl := Option.some.inj hst
        exact ht.published _ (List.mem_append_right _ (List.mem_singleton_self _))
      · intro hnames
        refine ⟨fun p hp => ?_, hs.changes⟩
        rcases List.mem_append.1 hp with hp | hp
        · exact hs.published p hp
        · obtain rfl := List.mem_singleton.1 hp
          exact hnames rfl _ hstream
  · cases ht

/-- A heartbeat is attributed when it is refused, or it names the node of
its token. -/
theorem attributed_heartbeat_iff (hs : Attributed text s) {metadata : Metadata}
    {hb : AgentHeartbeat} {health_id : Uuid} {faults : Faults} :
    Attributed text (s.heartbeat text jwt metadata hb health_id faults) ↔
      NamesItself text jwt s (.heartbeat metadata hb health_id faults) := by
  unfold heartbeat NamesItself
  cases hvalid : validate_token jwt s.now metadata with
  | error e => exact iff_of_true hs fun claims h => by rw [hvalid] at h; cases h
  | ok claims =>
    dsimp only
    constructor
    · intro ht claims' hclaims hrecorded
      rw [hvalid] at hclaims
      cases hclaims
      -- the node the heartbeat names has changed, so the token names it too
      rcases record_heartbeat_cases text hb health_id s.now faults s.tables with
        ⟨e, h⟩ | ⟨node_id, t', hparse, -⟩
      · rw [h] at hrecorded
        cases hrecorded
      · have hmem : node_id ∈ changedNodes s.tables
            (record_heartbeat text hb health_id s.now faults s.tables).2 :=
          mem_changedNodes_heartbeat.2 ⟨hrecorded, hparse⟩
        obtain ⟨claims', hclaims, hparse'⟩ :=
          ht.changes _ (List.mem_append_right _ (List.mem_map_of_mem hmem))
        cases hclaims
        rw [hparse', hparse]
    · intro hnames
      refine ⟨hs.published, fun c hc => ?_⟩
      rcases List.mem_append.1 hc with hc | hc
      · exact hs.changes c hc
      · obtain ⟨node_id, hnode, rfl⟩ := List.mem_map.1 hc
        obtain ⟨hrecorded, hparse⟩ := mem_changedNodes_heartbeat.1 hnode
        exact ⟨claims, rfl, (hnames claims hvalid hrecorded).trans hparse⟩

/-- **One call keeps every act attributed exactly when it names its own
node.** -/
theorem attributed_step_iff (hs : Attributed text s)
    (ht : (machine text codec jwt enrollment_secret topic).step s a = some s') :
    Attributed text s' ↔ NamesItself text jwt s a := by
  cases a with
  | tick elapsed =>
    obtain rfl := Option.some.inj ht
    exact iff_of_true (hs.congr rfl rfl) trivial
  | register_agent metadata reg draw faults =>
    obtain rfl := Option.some.inj ht
    exact iff_of_true hs.register trivial
  | event_stream metadata =>
    obtain ⟨-, ht⟩ := Option.ite_none_right_eq_some.1 ht
    obtain rfl := Option.some.inj ht
    refine iff_of_true ?_ trivial
    unfold event_stream
    split
    · exact hs
    · exact hs.congr rfl rfl
  | message i event drawn sent => exact attributed_message_iff hs ht
  | closeStream i =>
    obtain ⟨st, -, rfl⟩ := Option.map_eq_some_iff.1 ht
    exact iff_of_true (hs.congr rfl rfl) trivial
  | heartbeat metadata hb health_id faults =>
    obtain ⟨-, ht⟩ := Option.ite_none_right_eq_some.1 ht
    obtain rfl := Option.some.inj ht
    exact attributed_heartbeat_iff hs

theorem attributed_init (text : UuidText) (now : ℕ) : Attributed text (init now) :=
  ⟨fun _ hp => absurd hp List.not_mem_nil, fun _ hc => absurd hc List.not_mem_nil⟩

/-- **A run of the server attributes every act exactly when every call of
it names its own node.** -/
theorem machine_attributed_iff {now : ℕ} {l : List ServerAction}
    (hrun : (machine text codec jwt enrollment_secret topic).run (init now) l = some s') :
    (machine text codec jwt enrollment_secret topic).Always (Attributed text) (init now) l ↔
      (machine text codec jwt enrollment_secret topic).EveryStep (NamesItself text jwt)
        (init now) l :=
  Machine.always_iff_everyStep (fun _ _ _ h _ => h)
    (fun _ _ _ (_ : True) hs ht => attributed_step_iff hs ht) trivial (attributed_init text now)
    hrun

/-! ## Two clients -/

/-- Tokens for nodes `1` and `2` that are never out of date. -/
def twoTokens : Jwt where
  encode claims :=
    if claims.node_id = UuidText.standard.print ⟨1⟩ then .ok "one"
    else if claims.node_id = UuidText.standard.print ⟨2⟩ then .ok "two"
    else .error "key"
  decode _ token :=
    if token = "one" then .ok ⟨UuidText.standard.print ⟨1⟩, TOKEN_TTL_SECS⟩
    else if token = "two" then .ok ⟨UuidText.standard.print ⟨2⟩, TOKEN_TTL_SECS⟩
    else .error "InvalidToken"

/-- Two machines enroll. The second then opens a stream with its token,
sends an event of the first, and a heartbeat of the first. -/
def secondAsFirst (named : Uuid) : List ServerAction :=
  [.register_agent ⟨none, none⟩ ⟨"a", "linux", "1", "m1"⟩ ⟨⟨1⟩, ⟨11⟩, 0⟩ fun _ => none,
    .register_agent ⟨none, none⟩ ⟨"b", "linux", "1", "m2"⟩ ⟨⟨2⟩, ⟨12⟩, 0⟩ fun _ => none,
    .event_stream ⟨some (utf8 "Bearer two"), none⟩,
    .message 0 ⟨UuidText.standard.print named, "process", [], 0, "s"⟩ ⟨3⟩ (.ok ()),
    .heartbeat ⟨some (utf8 "Bearer two"), none⟩ ⟨UuidText.standard.print named, "degraded", 0⟩ ⟨4⟩
      fun _ => none]

/-- **The second node speaks for the first**: with a token of its own it
publishes an event of the other node and degrades its status. -/
theorem not_attributed_secondAsFirst :
    ∃ t, (machine UuidText.standard JsonText.codec twoTokens none "agents_events").run (init 0)
        (secondAsFirst ⟨1⟩) = some t ∧ ¬ Attributed UuidText.standard t ∧
      (t.published.map fun p => (p.event.node_id, p.claims.node_id)) =
        [(UuidText.standard.print ⟨1⟩, UuidText.standard.print ⟨2⟩)] ∧
      t.changes = [(⟨1⟩, some ⟨UuidText.standard.print ⟨2⟩, TOKEN_TTL_SECS⟩)] := by
  have hrun : ((machine UuidText.standard JsonText.codec twoTokens none "agents_events").run
      (init 0) (secondAsFirst ⟨1⟩)).map
        (fun t => (t.published.map fun p => (p.event.node_id, p.claims.node_id), t.changes)) =
      some ([(UuidText.standard.print ⟨1⟩, UuidText.standard.print ⟨2⟩)],
        [(⟨1⟩, some ⟨UuidText.standard.print ⟨2⟩, TOKEN_TTL_SECS⟩)]) := by
    rfl
  obtain ⟨t, ht, hfields⟩ := Option.map_eq_some_iff.1 hrun
  obtain ⟨hpublished, hchanges⟩ := Prod.mk.inj hfields
  refine ⟨t, ht, fun hattributed => ?_, hpublished, hchanges⟩
  obtain ⟨claims, hclaims, hparse⟩ := hattributed.changes _ (hchanges ▸ List.mem_singleton_self _)
  cases hclaims
  exact absurd hparse (by decide)

/-- Where the second node speaks for itself, every act is attributed. -/
theorem machine_attributed_iff_itself :
    (machine UuidText.standard JsonText.codec twoTokens none "agents_events").Always
        (Attributed UuidText.standard) (init 0) (secondAsFirst ⟨2⟩) ↔
      (machine UuidText.standard JsonText.codec twoTokens none "agents_events").EveryStep
        (NamesItself UuidText.standard twoTokens) (init 0) (secondAsFirst ⟨2⟩) :=
  machine_attributed_iff rfl

end Server

end AigisZero.Fleet
