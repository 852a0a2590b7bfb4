import AigisZero.Fleet.Registry

/-!
# Enrollment and tokens at the gRPC boundary

An agent that shows the enrollment secret is registered and gets a token
with its node in the claims. Every later call carries the token in its
metadata.
-/

namespace AigisZero.Fleet

/-- The headers of a call that the server looks at, as they came. -/
structure Metadata where
  authorization : Option Bytes
  x_enrollment_secret : Option Bytes
deriving DecidableEq, Repr

/-- The text of a header value, where it is visible ASCII. -/
def to_str (value : Bytes) : Option String :=
  if value.all fun b => (32 ≤ b && b < 127) || b = 9 then fromUtf8? value else none

/-- What follows a prefix. -/
def strip_prefix (pre s : String) : Option String :=
  if pre.toList <+: s.toList then some (String.ofList (s.toList.drop pre.toList.length)) else none

/-- The claims of a token. -/
structure NodeClaims where
  node_id : String
  /-- When the token expires, in seconds. -/
  exp : ℕ
deriving DecidableEq, Repr

/-- What signs and checks tokens under the secret of the server. -/
structure Jwt where
  /-- `jsonwebtoken::encode`. -/
  encode : NodeClaims → Except String String
  /-- `jsonwebtoken::decode`, at a time in seconds: the signature and the
  expiry are checked. -/
  decode : ℕ → String → Except String NodeClaims

/-- How long a token lives, in seconds. -/
def TOKEN_TTL_SECS : ℕ := 86400

variable (text : UuidText) (jwt : Jwt)

/-- `validate_token`. -/
def validate_token (now : ℕ) (metadata : Metadata) : Except Status NodeClaims :=
  match metadata.authorization with
  | none => .error ⟨.unauthenticated, "missing authorization header"⟩
  | some header =>
    match to_str header with
    | none => .error ⟨.unauthenticated, "authorization header is not valid utf-8"⟩
    | some header_str =>
      match strip_prefix "Bearer " header_str with
      | none => .error ⟨.unauthenticated, "authorization header must use Bearer scheme"⟩
      | some token =>
        (jwt.decode now token).mapError fun _ => ⟨.unauthenticated, "invalid or expired token"⟩

/-- `sign_token`: a token for the node, good for a day from now. -/
def sign_token (node_id : String) (now_secs : Except String ℕ) :
    Except NodeEnrollmentError String :=
  match now_secs with
  | .error e => .error (.clock ("system clock before UNIX epoch: " ++ e))
  | .ok now_secs =>
    (jwt.encode ⟨node_id, min (now_secs + TOKEN_TTL_SECS) (2 ^ 64 - 1)⟩).mapError .tokenSign

/-- `NodeEnroller::register_agent`. -/
def NodeEnroller.register_agent (reg : AgentRegistration) (draw : EnrollmentDraw) (faults : Faults)
    (now_secs : Except String ℕ) (t : Tables) : Except Status RegistrationResult × Tables :=
  let (stored, t) := upsert_node text {
    hostname := reg.hostname
    os_version := reg.os_version
    agent_version := reg.agent_version
    machine_id := reg.machine_id } draw faults t
  match stored with
  | .error _ => (.error ⟨.internal, "enrollment failed"⟩, t)
  | .ok node_id =>
    match sign_token jwt node_id now_secs with
    | .error _ => (.error ⟨.internal, "token signing failed"⟩, t)
    | .ok token => (.ok ⟨node_id, token⟩, t)

/-- The secret a registration shows: in its own header, or as a bearer. -/
def providedSecret (metadata : Metadata) : Option String :=
  (metadata.x_enrollment_secret.bind to_str).or
    ((metadata.authorization.bind to_str).bind ( strip_prefix "Bearer "))

/-- `FleetServiceImpl::register_agent`. A server without an enrollment
secret, or with an empty one, asks for none. -/
def register_agent (enrollment_secret : Option String) (metadata : Metadata)
    (reg : AgentRegistration) (draw : EnrollmentDraw) (faults : Faults)
    (now_secs : Except String ℕ) (t : Tables) : Except Status RegistrationResult × Tables :=
  match enrollment_secret with
  | some expected =>
    -- an empty secret stands for none
    if expected ≠ "" ∧ providedSecret metadata ≠ some expected then
      (.error ⟨.unauthenticated, "invalid or missing enrollment secret"⟩, t)
    else NodeEnroller.register_agent text jwt reg draw faults now_secs t
  | none => NodeEnroller.register_agent text jwt reg draw faults now_secs t

variable {text jwt}

/-- A registration makes of the tables what an enrollment does, or leaves
them as they are. -/
theorem register_agent_tables {enrollment_secret : Option String} {metadata : Metadata}
    {reg : AgentRegistration} {draw : EnrollmentDraw} {faults : Faults}
    {now_secs : Except String ℕ} {t : Tables} :
    (register_agent text jwt enrollment_secret metadata reg draw faults now_secs t).2 = t ∨
      ∃ record, (register_agent text jwt enrollment_secret metadata reg draw faults now_secs t).2 =
        (upsert_node text record draw faults t).2 := by
  -- past the secret, only the enrollment writes; the signing of the token does not
  have henroll : ∃ record, (NodeEnroller.register_agent text jwt reg draw faults now_secs t).2 =
      (upsert_node text record draw faults t).2 := by
    refine ⟨⟨reg.hostname, reg.os_version, reg.agent_version, reg.machine_id⟩, ?_⟩
    unfold NodeEnroller.register_agent
    dsimp only
    cases (upsert_node text ⟨reg.hostname, reg.os_version, reg.agent_version, reg.machine_id⟩
        draw faults t).1 with
    | error _ => rfl
    | ok node_id =>
      dsimp only
      cases sign_token jwt node_id now_secs <;> rfl
  unfold register_agent
  split
  · split
    · exact .inl rfl
    · exact .inr henroll
  · exact .inr henroll

end AigisZero.Fleet
