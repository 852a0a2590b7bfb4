import AigisZero.Fleet.Auth
import AigisZero.Library.Json

/-!
# The requests of the API backend

The router knows the handlers and asks nobody who he is. A handler that is
for operators takes them as an argument, and the extraction of it refuses
whoever shows no good token, before anything else of the request is looked
at. What such a handler does then is a parameter here.
-/

namespace AigisZero.Api

open Fleet ( strip_prefix to_str)

/-- The method of a request. -/
inductive Method where
  | get
  | head
  | post
  | patch
  | other
deriving DecidableEq, Repr

/-- A request below `/api/v1`. What the extractors read besides is in the
other headers, the query and the body. -/
structure Request where
  method : Method
  /-- The segments of the path. -/
  path : List String
  query : String
  authorization : Option Bytes
  headers : List (String × Bytes)
  body : Bytes
deriving DecidableEq, Repr

/-- The body of a response. -/
inductive Body where
  | json (j : Json)
  | bytes (b : Bytes)

/-- A response, without the headers that all have. -/
structure Response where
  status : ℕ
  body : Body

/-- A response without a body. -/
def Response.empty (status : ℕ) : Response := ⟨status, .bytes []⟩

/-- What a request of a method gets of a response. -/
def Response.answering (method : Method) (response : Response) : Response :=
  if method = .head then .empty response.status else response

/-! ## Errors -/

/-- The errors of a request. -/
inductive AppError where
  | unauthorized (message : String)
  | forbidden (message : String)
  | notFound (message : String)
  | validationError (message : String)
  | conflict (message : String)
  | databaseError (message : String)
  | kafkaError (message : String)
  | externalServiceError (message : String)
  | internalServerError (message : String)
deriving DecidableEq, Repr

namespace AppError

/-- `AppError::error_code`. -/
def error_code : AppError → String
  | unauthorized _ => "UNAUTHORIZED"
  | forbidden _ => "FORBIDDEN"
  | notFound _ => "RESOURCE_NOT_FOUND"
  | validationError _ => "VALIDATION_ERROR"
  | conflict _ => "CONFLICT"
  | databaseError _ => "DATABASE_ERROR"
  | kafkaError _ => "KAFKA_ERROR"
  | externalServiceError _ => "EXTERNAL_SERVICE_ERROR"
  | internalServerError _ => "INTERNAL_SERVER_ERROR"

/-- `AppError::status_code`. -/
def status_code : AppError → ℕ
  | unauthorized _ => 401
  | forbidden _ => 403
  | notFound _ => 404
  | validationError _ => 400
  | conflict _ => 409
  | databaseError _ => 500
  | kafkaError _ => 500
  | externalServiceError _ => 502
  | internalServerError _ => 500

/-- The text of an error. -/
def to_string : AppError → String
  | unauthorized message => "Authentication failed: " ++ message
  | forbidden message => "Forbidden: " ++ message
  | notFound message => "Resource not found: " ++ message
  | validationError message => "Validation error: " ++ message
  | conflict message => "Conflict: " ++ message
  | databaseError message => "Database error: " ++ message
  | kafkaError message => "Kafka error: " ++ message
  | externalServiceError message => "External service error: " ++ message
  | internalServerError message => "Internal server error: " ++ message

/-- `AppError::into_response`, at the time of the text. -/
def into_response (e : AppError) (timestamp : String) : Response where
  status := e.status_code
  body := .json (Json.object [
    ("success", .bool false),
    ("error", Json.object [("code", .str e.error_code), ("message", .str e.to_string),
      ("details", .null)]),
    ("meta", Json.object [("timestamp", .str timestamp)])])

end AppError

/-! ## Handlers -/

/-- The claims of an operator's token. -/
structure Claims where
  sub : String
  role : String
  exp : Int64
  iat : Int64
deriving DecidableEq, Repr

/-- What signs and checks the tokens of operators. -/
structure OperatorJwt where
  encode : Claims → Except String String
  /-- At a time in seconds. -/
  decode : ℕ → String → Except String Claims

/-- The handlers that take an `AuthUser`. -/
inductive Guarded where
  | me
  | list_nodes
  | get_node_by_id
  | isolate_node
  | unisolate_node
  | list_alerts
  | get_alert_by_id
  | update_alert_status
  | search_logs
  | get_log_by_id
deriving DecidableEq, Repr

/-- The handlers. -/
inductive Handler where
  | login
  | ws_handler
  | guarded (h : Guarded)
deriving DecidableEq, Repr

/-- `LoginRequest`. -/
structure LoginRequest where
  username : String
  password : String
deriving DecidableEq, Repr

def LoginRequest.ofJson (j : Json) : Option LoginRequest := do
  let username ← (j.get? "username").bind Json.asStr?
  let password ← (j.get? "password").bind Json.asStr?
  return ⟨username, password⟩

/-- `WsQuery`. -/
structure WsQuery where
  topics : Option String
  node_id : Option String
deriving DecidableEq, Repr

/-- The settings that the handlers look at. -/
structure Settings where
  jwt_expiration_secs : Int64
  admin_default_user : String
  admin_default_password : String

/-- **What the backend is built on**, over the state of its databases. -/
structure Platform (δ : Type*) where
  codec : JsonCodec
  /-- The text of a time in milliseconds. -/
  to_rfc3339 : ℕ → String
  to_lowercase : String → String
  /-- The number that is left of a number kept in 32 bits. -/
  f32 : Json → Json
  jwt : OperatorJwt
  /-- `AuthService::verify_password`. -/
  verify_password : String → String → Bool
  /-- The body of a request, where it is JSON of the kind asked for. -/
  json : {α : Type} → (Json → Option α) → Request → Except Response α
  /-- The query of a request for a WebSocket. -/
  query : Request → Except Response WsQuery
  /-- The answer to a request for a WebSocket. -/
  upgrade : Request → Except Response Response
  /-- What a handler does for an operator. -/
  authorized : Guarded → Claims → Request → ℕ → δ → Response × δ

/-! ## Routes -/

/-- A segment of a path that is a parameter. -/
def param (id : String) (route : Method × Handler) : Option (Method × Handler) :=
  if id = "" then none else some route

def auth_routes : List String → Option (Method × Handler)
  | ["login"] => some (.post, .login)
  | ["me"] => some (.get, .guarded .me)
  | _ => none

def node_routes : List String → Option (Method × Handler)
  | [] => some (.get, .guarded .list_nodes)
  | [id] => param id (.get, .guarded .get_node_by_id)
  | [id, "isolate"] => param id (.post, .guarded .isolate_node)
  | [id, "unisolate"] => param id (.post, .guarded .unisolate_node)
  | _ => none

def alert_routes : List String → Option (Method × Handler)
  | [] => some (.get, .guarded .list_alerts)
  | [id] => param id (.get, .guarded .get_alert_by_id)
  | [id, "status"] => param id (.patch, .guarded .update_alert_status)
  | _ => none

def log_routes : List String → Option (Method × Handler)
  | [] => some (.get, .guarded .search_logs)
  | [id] => param id (.get, .guarded .get_log_by_id)
  | _ => none

def ws_routes : List String → Option (Method × Handler)
  | ["ws"] => some (.get, .ws_handler)
  | _ => none

/-- `create_router`, below `/api/v1`: the method and the handler of a path. -/
def create_router : List String → Option (Method × Handler)
  | "auth" :: rest => auth_routes rest
  | "nodes" :: rest => node_routes rest
  | "alerts" :: rest => alert_routes rest
  | "logs" :: rest => log_routes rest
  | path => ws_routes path

/-- The handler of a request. A `HEAD` is taken for a `GET`. -/
def route (r : Request) : Except Response Handler :=
  match create_router r.path with
  | none => .error (.empty 404)
  | some (method, handler) =>
    if r.method = method ∨ (r.method = .head ∧ method = .get) then .ok handler
    else .error (.empty 405)

/-! ## Requests -/

/-- Unicode white space. -/
def is_whitespace (c : Char) : Bool :=
  (9 ≤ c.val && c.val ≤ 13) || c.val ∈ [0x20, 0x85, 0xA0, 0x1680, 0x2028, 0x2029, 0x202F, 0x205F,
    0x3000] || (0x2000 ≤ c.val && c.val ≤ 0x200A)

/-- `str::trim`. -/
def trim (s : String) : String :=
  String.ofList (((s.toList.dropWhile is_whitespace).reverse.dropWhile is_whitespace).reverse)

/-- Which events a WebSocket is for. -/
structure Filter where
  node_id : Option String
  topics : List String
deriving DecidableEq, Repr

/-- The answer to a request: a response, with the filter of the WebSocket
that it opens. -/
structure Answer where
  response : Response
  opens : Option Filter

variable {δ : Type*} (P : Platform δ) (settings : Settings)

/-- `AuthUser::from_request_parts`, at a time in seconds. -/
def AuthUser.from_request_parts (now : ℕ) (r : Request) : Except AppError Claims :=
  match r.authorization.bind to_str with
  | none => .error (.unauthorized "Missing Authorization header")
  | some auth_header =>
    match strip_prefix "Bearer " auth_header with
    | none => .error (.unauthorized "Invalid Authorization format, Bearer token expected")
    | some stripped =>
      (P.jwt.decode now (trim stripped)).mapError fun e =>
        .unauthorized ("Invalid or expired token: " ++ e)

/-- The credentials are those of the operator. -/
def is_valid (req : LoginRequest) : Bool :=
  req.username = settings.admin_default_user &&
    (req.password = settings.admin_default_password ||
      P.verify_password req.password settings.admin_default_password)

/-- What an operator may do. -/
def permissions : Json :=
  .arr [.str "nodes:read", .str "nodes:isolate", .str "alerts:read", .str "alerts:write",
    .str "logs:read"]

/-- `AuthService::login`, at a time in seconds: the answer of a login. -/
def AuthService.login (now : ℕ) (req : LoginRequest) : Except AppError Json :=
  if is_valid P settings req then
    let iat := Int64.ofNat now
    match P.jwt.encode ⟨req.username, "soc_admin", iat + settings.jwt_expiration_secs, iat⟩ with
    | .error e => .error (.internalServerError ("Token generation failed: " ++ e))
    | .ok token => .ok (Json.object [
        ("token", .str token), ("token_type", .str "Bearer"),
        ("expires_in", .int settings.jwt_expiration_secs.toInt),
        ("user", Json.object [("username", .str req.username), ("role", .str "soc_admin"),
          ("permissions", permissions)])])
  else .error (.unauthorized "Invalid username or password")

/-- `auth::login`, at a time in milliseconds. -/
def login (now : ℕ) (r : Request) : Response :=
  match P.json LoginRequest.ofJson r with
  | .error rejection => rejection
  | .ok payload =>
    match AuthService.login P settings (now / 1000) payload with
    | .error e => e.into_response (P.to_rfc3339 now)
    | .ok data => ⟨200, .json (Json.object [("success", .bool true), ("data", data),
        ("meta", Json.object [("timestamp", .str (P.to_rfc3339 now))])])⟩

/-- `parse_topics`. -/
def parse_topics (topics : Option String) : List String :=
  match topics with
  | some t => (t.splitOn ",").map fun s => P.to_lowercase (trim s)
  | none => ["logs", "alerts", "heartbeats"]

/-- `ws_handler`: what is asked for is opened, whoever asks. -/
def ws_handler (r : Request) : Answer :=
  match P.upgrade r with
  | .error rejection => ⟨rejection, none⟩
  | .ok switching =>
    match P.query r with
    | .error rejection => ⟨rejection, none⟩
    | .ok query => ⟨switching, some ⟨query.node_id, parse_topics P query.topics⟩⟩

/-- A handler is called, at a time in milliseconds. -/
def serve (now : ℕ) (r : Request) (db : δ) : Handler → Answer × δ
  | .login => (⟨login P settings now r, none⟩, db)
  | .ws_handler => (ws_handler P r, db)
  | .guarded h =>
    match AuthUser.from_request_parts P (now / 1000) r with
    | .error e => (⟨e.into_response (P.to_rfc3339 now), none⟩, db)
    | .ok claims =>
      let (response, db) := P.authorized h claims r now db
      (⟨response, none⟩, db)

/-- A request is answered. -/
def respond (now : ℕ) (r : Request) (db : δ) : Answer × δ :=
  match route r with
  | .error response => (⟨response, none⟩, db)
  | .ok handler =>
    let (answer, db) := serve P settings now r db handler
    (⟨answer.response.answering r.method, answer.opens⟩, db)

/-- **Nobody is known by the request**: it shows no token that is good, and
logs nobody in. -/
structure Unauthenticated (now : ℕ) (r : Request) : Prop where
  token : ∀ claims, AuthUser.from_request_parts P (now / 1000) r ≠ .ok claims
  login : ∀ req, P.json LoginRequest.ofJson r = .ok req → is_valid P settings req = false

variable {P settings} {now : ℕ} {r : Request}

/-- The WebSocket that a request opens. -/
def opens (P : Platform δ) (r : Request) : Option Filter :=
  match route r with
  | .ok .ws_handler => (ws_handler P r).opens
  | _ => none

theorem opens_respond (now : ℕ) (r : Request) (db : δ) :
    (respond P settings now r db).1.opens = opens P r := by
  unfold respond opens
  cases route r with
  | error response => rfl
  | ok handler =>
    cases handler with
    | login => rfl
    | ws_handler => rfl
    | guarded h =>
      dsimp only [serve]
      cases AuthUser.from_request_parts P (now / 1000) r <;> rfl

/-- **Whom it does not know, the backend answers from the request alone.** -/
theorem respond_of_unauthenticated (h : Unauthenticated P settings now r) (db db' : δ) :
    (respond P settings now r db).1 = (respond P settings now r db').1 := by
  unfold respond
  cases route r with
  | error response => rfl
  | ok handler =>
    cases handler with
    | login => rfl
    | ws_handler => rfl
    | guarded g =>
      dsimp only [serve]
      cases hauth : AuthUser.from_request_parts P (now / 1000) r with
      | error e => rfl
      | ok claims => exact absurd hauth (h.token claims)

end AigisZero.Api
