import AigisZero.Backend.Api
import AigisZero.Backend.LiveEvent
import AigisZero.Library.Calls

/-!
# The live feed

A WebSocket gets the live events that its filter lets through, for as long
as it is open, and its client sets the filter. Nobody is asked for a token.
This file says from which requests a client that shows none learns nothing
of what goes on: two runs with the same requests, and whatever histories,
look the same to it.
-/

namespace AigisZero.Api

open Backend (LiveEvent TopicMessage parse_kafka_message)

/-! ## Messages -/

/-- `WsClientMessage`. -/
inductive WsClientMessage where
  | subscribe (topics : Option (List String)) (node_id : Option String)
  | ping
deriving DecidableEq, Repr

namespace WsClientMessage

/-- The topics of a subscription: absent and `null` are the same. -/
def optionalTopics : Option Json → Option (Option (List String))
  | none => some none
  | some .null => some none
  | some (.arr elements) => (elements.mapM Json.asStr?).map some
  | some _ => none

def subscription (topics node_id : Option Json) : Option WsClientMessage := do
  let topics ← optionalTopics topics
  let node_id ← RuleEngine.optionalStr node_id
  return .subscribe topics node_id

/-- The message a value is: its kind under `action` beside the rest, or all
in a row. -/
def ofJson : Json → Option WsClientMessage
  | .obj fields =>
    match (Fields.lookup "action" fields).bind Json.asStr? with
    | some "subscribe" =>
      subscription (Fields.lookup "topics" fields) (Fields.lookup "node_id" fields)
    | some "ping" => some .ping
    | _ => none
  | .arr [.str "subscribe", topics, node_id] => subscription (some topics) (some node_id)
  | .arr [.str "ping"] => some .ping
  | _ => none

end WsClientMessage

/-- The text of an optional member. -/
def ofOption : Option String → Json
  | some s => .str s
  | none => .null

/-- `WsServerMessage`, the messages that are sent. -/
inductive WsServerMessage where
  | pong (timestamp : Int64)
  | subscribed (topics : List String) (node_id : Option String)
deriving DecidableEq, Repr

def WsServerMessage.toJson : WsServerMessage → Json
  | .pong timestamp => .obj [("type", .str "pong"), ("timestamp", .int timestamp.toInt)]
  | .subscribed topics node_id => .obj [("type", .str "subscribed"),
      ("topics", .arr (topics.map .str)), ("node_id", ofOption node_id)]

/-- A live event as it is sent. -/
def eventJson (f32 : Json → Json) : LiveEvent → Json
  | .log node_id hostname event_type payload timestamp_ns =>
    .obj [("type", .str "log"), ("data", .obj [("node_id", .str node_id),
      ("hostname", .str hostname), ("event_type", .str event_type), ("payload", payload),
      ("timestamp_ns", .int timestamp_ns.toInt)])]
  | .alert id node_id hostname severity mitre_technique_id description threat_score timestamp_ns =>
    .obj [("type", .str "alert"), ("data", .obj [("id", .str id), ("node_id", .str node_id),
      ("hostname", .str hostname), ("severity", .str severity),
      ("mitre_technique_id", ofOption mitre_technique_id), ("description", .str description),
      ("threat_score", f32 threat_score), ("timestamp_ns", .int timestamp_ns.toInt)])]
  | .heartbeat node_id agent_status events_buffered timestamp_ns =>
    .obj [("type", .str "heartbeat"), ("data", .obj [("node_id", .str node_id),
      ("agent_status", .str agent_status), ("events_buffered", .int events_buffered.toInt),
      ("timestamp_ns", .int timestamp_ns.toInt)])]

/-- The topic and the node of an event. -/
def topicAndNode : LiveEvent → String × String
  | .log node_id .. => ("logs", node_id)
  | .alert _ node_id .. => ("alerts", node_id)
  | .heartbeat node_id .. => ("heartbeats", node_id)

/-- `matches_filter`. -/
def matches_filter (event : LiveEvent) (filter : Filter) : Bool :=
  let (event_topic, event_node) := topicAndNode event
  if !filter.topics.isEmpty && !filter.topics.any fun t => t = event_topic || t = "all" then false
  else if filter.node_id.any fun target => target ≠ event_node then false
  else true

/-! ## Sockets -/

/-- A frame from the client, or the end of the connection. -/
inductive Message where
  | text (text : String)
  | ping (payload : Bytes)
  | close
  /-- A binary frame or a pong. -/
  | other
  | gone
deriving DecidableEq, Repr

/-- A frame to the client. -/
inductive Frame where
  | text (text : String)
  | ping (payload : Bytes)
  | pong (payload : Bytes)
deriving DecidableEq, Repr

/-- The receiving end of the broadcast. -/
structure Receiver where
  queue : List LiveEvent
  /-- How many events it has missed. -/
  lagged : ℕ

/-- `broadcast::channel(5000)`: a channel holds the next power of two. -/
def BROADCAST_CAPACITY : ℕ := 8192

/-- What is broadcast, and pushes out the oldest where there is no room. -/
def Receiver.push (rx : Receiver) (event : LiveEvent) : Receiver :=
  if rx.queue.length < BROADCAST_CAPACITY then { rx with queue := rx.queue ++ [event] }
  else ⟨rx.queue.tail ++ [event], rx.lagged + 1⟩

/-- A WebSocket: its filter as long as its task runs. -/
structure Socket where
  filter : Option Filter
  rx : Receiver

/-- A socket whose task has just subscribed. -/
def Socket.new (filter : Filter) : Socket := ⟨some filter, ⟨[], 0⟩⟩

section Machine

variable {δ : Type*} (P : Platform δ) (settings : Settings)

/-- The loop of `handle_socket` takes a message, at a time in milliseconds:
the filter it goes on with, if it does, and what it sends. -/
def handle_message (now : ℕ) (filter : Filter) : Message → Option Filter × List Frame
  | .text text =>
    match (P.codec.ofText text).bind WsClientMessage.ofJson with
    | some (.subscribe topics node_id) =>
      let filter : Filter := ⟨node_id, topics.getD filter.topics⟩
      (some filter,
        [.text (P.codec.toText (WsServerMessage.subscribed filter.topics node_id).toJson)])
    | some .ping =>
      (some filter, [.text (P.codec.toText (WsServerMessage.pong (Int64.ofNat now)).toJson)])
    | none => (some filter, [])
  | .ping payload => (some filter, [.pong payload])
  | .other => (some filter, [])
  | .close => (none, [])
  | .gone => (none, [])

/-- What the client gets. -/
inductive Observation where
  | response (response : Response)
  | frame (socket : ℕ) (frame : Frame)

/-- The backend, and what one client has got of it. -/
structure AppState (δ : Type*) where
  db : δ
  /-- The sockets of the client. -/
  sockets : List Socket
  received : List Observation

/-- What the client does, and its clock. -/
inductive ClientAction where
  | request (r : Request) (now : ℕ)
  | message (socket : ℕ) (m : Message) (now : ℕ)
  /-- The ping interval of a socket. -/
  | tick (socket : ℕ)

/-- What can happen. -/
inductive ApiAction (δ : Type*) where
  | client (a : ClientAction)
  /-- Others change the nodes, the alerts and the logs. -/
  | change (db : δ)
  /-- A message of the broker is read, at a time in nanoseconds. -/
  | kafka (msg : TopicMessage) (now : Int64)
  /-- The loop of a socket receives from the broadcast. -/
  | deliver (socket : ℕ)

namespace AppState

/-- No socket is open. -/
def init (db : δ) : AppState δ := ⟨db, [], []⟩

/-- What the client does. What it sends to a socket that is closed is lost. -/
def client (s : AppState δ) : ClientAction → AppState δ
  | .request r now =>
    let (answer, db) := respond P settings now r s.db
    ⟨db, s.sockets ++ (answer.opens.map Socket.new).toList,
      s.received ++ [.response answer.response]⟩
  | .message i m now =>
    match s.sockets[i]? with
    | some ⟨some filter, rx⟩ =>
      let (filter, frames) := handle_message P now filter m
      { s with
        sockets := s.sockets.set i ⟨filter, rx⟩
        received := s.received ++ frames.map (.frame i) }
    | _ => s
  | .tick i =>
    match s.sockets[i]? with
    | some ⟨some _, _⟩ => { s with received := s.received ++ [.frame i (.ping [])] }
    | _ => s

/-- An event is broadcast. -/
def broadcast (s : AppState δ) (event : LiveEvent) : AppState δ :=
  { s with sockets := s.sockets.map fun socket => { socket with rx := socket.rx.push event } }

/-- The loop of a socket receives: that it has missed events, which it only
logs, or an event, which is sent if it passes the filter. -/
def deliver (s : AppState δ) (i : ℕ) : Option (AppState δ) :=
  match s.sockets[i]? with
  | some ⟨some filter, ⟨queue, _ + 1⟩⟩ =>
    some { s with sockets := s.sockets.set i ⟨some filter, ⟨queue, 0⟩⟩ }
  | some ⟨some filter, ⟨event :: queue, 0⟩⟩ =>
    some { s with
      sockets := s.sockets.set i ⟨some filter, ⟨queue, 0⟩⟩
      received := s.received ++
        if matches_filter event filter then
          [.frame i (.text (P.codec.toText (eventJson P.f32 event)))]
        else [] }
  | _ => none

/-- **The API backend and one client of it as a machine.** -/
def machine : Machine (AppState δ) (ApiAction δ) where
  step s
    | .client a => some (s.client P settings a)
    | .change db => some { s with db := db }
    | .kafka msg now =>
      match parse_kafka_message P.codec msg now with
      | some event => some (s.broadcast event)
      | none => some s
    | .deliver i => s.deliver P i

end AppState

/-- What the client does of what happens. -/
def ApiAction.seen : ApiAction δ → Option ClientAction
  | .client a => some a
  | _ => none

/-- **The client learns nothing**: whatever the histories, with the same
actions of its own it gets the same. -/
def NonInterfering (c : List ClientAction) : Prop :=
  ∀ (db db' : δ) (l l' : List (ApiAction δ)) (u u' : AppState δ),
    l.filterMap ApiAction.seen = c → l'.filterMap ApiAction.seen = c →
    (AppState.machine P settings).run (.init db) l = some u →
    (AppState.machine P settings).run (.init db') l' = some u' → u.received = u'.received

/-- **A filter lets something through**: all topics, or one there is. -/
def Filter.LetsThrough (filter : Filter) : Prop :=
  filter.topics = [] ∨ ∃ t ∈ filter.topics, t ∈ ["logs", "alerts", "heartbeats", "all"]

instance (filter : Filter) : Decidable filter.LetsThrough :=
  inferInstanceAs (Decidable (_ ∨ ∃ t ∈ filter.topics, _))

/-- What an action makes of the filters of the client's sockets. -/
def stepFilters (filters : List (Option Filter)) : ClientAction → List (Option Filter)
  | .request r _ => filters ++ ((opens P r).map some).toList
  | .message i m now =>
    match filters[i]? with
    | some (some filter) => filters.set i (handle_message P now filter m).1
    | _ => filters
  | .tick _ => filters

/-- **The client is blind**: no socket it opens ever has a filter that lets
something through. -/
def Blind (c : List ClientAction) : Prop :=
  ∀ p, p <+: c → ∀ filter, some filter ∈ p.foldl (stepFilters P) [] → ¬filter.LetsThrough

/-- **The client is nobody the backend knows.** -/
def ClientAction.Unauthenticated : ClientAction → Prop
  | .request r now => Api.Unauthenticated P settings now r
  | _ => True

/-! ## What passes a filter -/

variable {P settings} {s t u : AppState δ} {a : ClientAction} {c q : List ClientAction} {db : δ}
  {filters : List (Option Filter)} {filter : Filter} {event : LiveEvent}

theorem topic_mem (event : LiveEvent) :
    (topicAndNode event).1 ∈ ["logs", "alerts", "heartbeats", "all"] := by
  cases event <;> simp [topicAndNode]

/-- A filter that lets nothing through is passed by no event. -/
theorem matches_filter_eq_false (h : ¬filter.LetsThrough) :
    matches_filter event filter = false := by
  obtain ⟨htopics, hnone⟩ := not_or.1 h
  have hempty : filter.topics.isEmpty = false := by simpa using htopics
  have hany : (filter.topics.any fun t => t = (topicAndNode event).1 || t = "all") = false := by
    refine List.any_eq_false.2 fun t ht hmatch => hnone ⟨t, ht, ?_⟩
    rcases (by simpa using hmatch) with rfl | rfl
    · exact topic_mem event
    · simp
  simp only [matches_filter, hempty, hany, Bool.not_false, Bool.and_self, if_true]

/-- The message of the broker that names a node and nothing else. -/
def named (codec : JsonCodec) (topic node_id : String) : TopicMessage :=
  ⟨topic, codec.toVec (.obj [("node_id", .str node_id)])⟩

/-- The filters of the client's sockets, and what it has got. -/
def AppState.view (s : AppState δ) : List (Option Filter) × List Observation :=
  (s.sockets.map (·.filter), s.received)

/-- What the client gets of an action of its own. -/
def heard (P : Platform δ) (settings : Settings) (db : δ) (filters : List (Option Filter)) :
    ClientAction → List Observation
  | .request r now => [.response (respond P settings now r db).1.response]
  | .message i m now =>
    match filters[i]? with
    | some (some filter) => (handle_message P now filter m).2.map (.frame i)
    | _ => []
  | .tick i =>
    match filters[i]? with
    | some (some _) => [.frame i (.ping [])]
    | _ => []

/-- What an action makes of the view. -/
def look (P : Platform δ) (settings : Settings) (db : δ)
    (v : List (Option Filter) × List Observation) (a : ClientAction) :
    List (Option Filter) × List Observation :=
  (stepFilters P v.1 a, v.2 ++ heard P settings db v.1 a)

/-- **The view moves by itself**, whatever the databases hold. -/
theorem view_client (ha : a.Unauthenticated P settings) :
    (s.client P settings a).view = look P settings db s.view a := by
  cases a with
  | request r now =>
    have hanswer := respond_of_unauthenticated ha s.db db
    have hopens : (respond P settings now r s.db).1.opens = opens P r := opens_respond now r s.db
    simp only [AppState.client, AppState.view, look, stepFilters, heard, ← hanswer, ← hopens,
      List.map_append]
    cases (respond P settings now r s.db).1.opens <;> rfl
  | message i m now =>
    cases hsocket : s.sockets[i]? with
    | none => simp [AppState.client, AppState.view, look, stepFilters, heard, hsocket]
    | some socket =>
      obtain ⟨filter, rx⟩ := socket
      cases filter with
      | none => simp [AppState.client, AppState.view, look, stepFilters, heard, hsocket]
      | some filter =>
        simp [AppState.client, AppState.view, look, stepFilters, heard, hsocket, List.map_set]
  | tick i =>
    cases hsocket : s.sockets[i]? with
    | none => simp [AppState.client, AppState.view, look, stepFilters, heard, hsocket]
    | some socket =>
      obtain ⟨filter, rx⟩ := socket
      cases filter <;>
        simp [AppState.client, AppState.view, look, stepFilters, heard, hsocket]

/-- **What the client does not do, it does not see**, where no filter lets
anything through. -/
theorem view_unseen {a : ApiAction δ} (hseen : a.seen = none)
    (hblind : ∀ filter, some filter ∈ s.view.1 → ¬filter.LetsThrough)
    (ht : (AppState.machine P settings).step s a = some t) : t.view = s.view := by
  cases a with
  | client a => cases hseen
  | change db =>
    obtain rfl := Option.some.inj ht
    rfl
  | kafka msg now =>
    simp only [AppState.machine] at ht
    split at ht
    · obtain rfl := Option.some.inj ht
      simp [AppState.view, AppState.broadcast, Function.comp_def]
    · obtain rfl := Option.some.inj ht
      rfl
  | deliver i =>
    simp only [AppState.machine, AppState.deliver] at ht
    split at ht
    · next filter queue _ hsocket =>
      obtain rfl := Option.some.inj ht
      exact Prod.ext (Calls.map_set hsocket rfl) rfl
    · next filter event queue hsocket =>
      obtain rfl := Option.some.inj ht
      have hopen : some filter ∈ s.view.1 :=
        List.mem_map.2 ⟨_, List.mem_of_getElem? hsocket, rfl⟩
      have hfails : matches_filter event filter = false := matches_filter_eq_false (hblind _ hopen)
      rw [hfails]
      exact Prod.ext (Calls.map_set hsocket rfl) (List.append_nil _)
    · cases ht

/-- What the client gets of its own actions. -/
def heardAll (P : Platform δ) (settings : Settings) (db : δ) :
    List (Option Filter) → List ClientAction → List Observation
  | _, [] => []
  | filters, a :: c =>
    heard P settings db filters a ++ heardAll P settings db (stepFilters P filters a) c

theorem foldl_look (v : List (Option Filter) × List Observation) :
    c.foldl (look P settings db) v =
      (c.foldl (stepFilters P) v.1, v.2 ++ heardAll P settings db v.1 c) := by
  induction c generalizing v with
  | nil => simp [heardAll]
  | cons a c ih => simp [ih, look, heardAll]

/-- **A blind client gets what its own actions tell it.** -/
theorem received_of_blind (db : δ) {l : List (ApiAction δ)} {db' : δ}
    (hunauth : ∀ a ∈ c, a.Unauthenticated P settings) (hblind : Blind P c)
    (hseen : l.filterMap ApiAction.seen = c)
    (hrun : (AppState.machine P settings).run (.init db') l = some u) :
    u.received = heardAll P settings db [] c := by
  have hview : u.view = c.foldl (look P settings db) (AppState.init db').view := by
    subst hseen
    refine Machine.view_run
      (Q := fun v => ∀ filter, some filter ∈ v.1 → ¬filter.LetsThrough)
      (R := fun a => a.Unauthenticated P settings) ?_ (fun s a t => view_unseen) hunauth ?_ hrun
    · intro s a t b hlow hb ht
      cases a with
      | client a =>
        obtain rfl := Option.some.inj hlow
        obtain rfl := Option.some.inj ht
        exact view_client hb
      | change db => cases hlow
      | kafka msg now => cases hlow
      | deliver i => cases hlow
    · intro p hp
      rw [foldl_look]
      exact hblind p hp
  rw [foldl_look] at hview
  simpa [AppState.view, AppState.init] using congrArg Prod.snd hview

/-! ## A client that is not blind -/

/-- No socket has anything to receive. -/
def Quiet (s : AppState δ) : Prop := ∀ socket ∈ s.sockets, socket.rx = ⟨[], 0⟩

theorem Quiet.client (h : Quiet s) : Quiet (s.client P settings a) := by
  cases a with
  | request r now =>
    refine List.forall_mem_append.2 ⟨h, fun socket hsocket => ?_⟩
    obtain ⟨filter, -, rfl⟩ := Option.map_eq_some_iff.1 (Option.mem_toList.1 hsocket)
    rfl
  | message i m now =>
    simp only [AppState.client]
    split
    · next filter rx hsocket =>
      have hrx : rx = ⟨[], 0⟩ := h _ (List.mem_of_getElem? hsocket)
      exact Calls.forall_mem_set h hrx
    · exact h
  | tick i =>
    simp only [AppState.client]
    split
    · exact h
    · exact h

/-- Who opens no WebSocket is blind, -/
theorem blind_of_no_socket (hnone : ∀ r now, .request r now ∈ c → opens P r = none) :
    Blind P c := by
  have hempty : ∀ p : List ClientAction, (∀ r now, .request r now ∈ p → opens P r = none) →
      p.foldl (stepFilters P) [] = [] := by
    intro p
    induction p with
    | nil => exact fun _ => rfl
    | cons a p ih =>
      intro hp
      have hfirst : stepFilters P [] a = [] := by
        cases a with
        | request r now => simp [stepFilters, hp r now List.mem_cons_self]
        | message i m now => rfl
        | tick i => rfl
      rw [List.foldl_cons, hfirst]
      exact ih fun r now hr => hp r now (List.mem_cons_of_mem _ hr)
  intro p hp filter hfilter
  rw [hempty p fun r now hr => hnone r now (hp.subset hr)] at hfilter
  exact absurd hfilter List.not_mem_nil

/-- and every other route that tells anything asks for a token. -/
theorem nonInterfering_of_no_socket (hunauth : ∀ a ∈ c, a.Unauthenticated P settings)
    (hnone : ∀ r now, .request r now ∈ c → opens P r = none) : NonInterfering P settings c := by
  have hblind := blind_of_no_socket hnone
  intro db db' l l' u u' hl hl' hrun hrun'
  rw [received_of_blind db hunauth hblind hl hrun,
    received_of_blind db hunauth hblind hl' hrun']

end Machine

/-! ## A WebSocket without a token -/

/-- A backend that knows no token, and whose handlers would tell the nodes. -/
def nodesPlatform : Platform (List String) where
  codec := JsonText.codec
  to_rfc3339 _ := "1970-01-01T00:00:00+00:00"
  to_lowercase topics := topics
  f32 score := score
  jwt := ⟨fun _ => .error "InvalidKeyFormat", fun _ _ => .error "InvalidToken"⟩
  verify_password _ _ := false
  json ofJson r :=
    match (JsonText.codec.fromSlice r.body).bind ofJson with
    | some a => .ok a
    | none => .error (.empty 400)
  query r := if r.query = "" then .ok ⟨none, none⟩ else .error (.empty 400)
  upgrade r :=
    if ("upgrade", utf8 "websocket") ∈ r.headers then .ok (.empty 101) else .error (.empty 400)
  authorized _ _ _ _ nodes := (⟨200, .json (.arr (nodes.map .str))⟩, nodes)

def defaultSettings : Settings := ⟨86400, "admin", "admin"⟩

end AigisZero.Api
