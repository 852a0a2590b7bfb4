import AigisZero.Fleet.Auth

/-!
# The fleet client

The end of the connection that the agent holds: a channel to the Fleet
Server, the token it enrolled with, and the receiving end of the command
stream. A stream is asked for with the token and opened by a server that
finds it good.
-/

namespace AigisZero.Agent

open Fleet

/-- The receiving end of the commands of a connection. -/
structure Inbound where
  queue : List OutgoingCommand
  /-- The forwarder has stopped. -/
  closed : Bool
deriving DecidableEq, Repr

/-- The client. -/
structure FleetClient where
  /-- There is a channel to the server. -/
  client : Bool
  inbound_rx : Option Inbound
  node_id : Option Uuid
  token : Option String
deriving DecidableEq, Repr

/-- How far a call gets. -/
inductive Net where
  /-- The endpoint is none, or cannot be reached. -/
  | unreachable (e : String)
  /-- The server is reached, and the call is lost. -/
  | lost (e : String)
  | answered
deriving DecidableEq, Repr

/-- The errors of the client. -/
inductive ClientError where
  | transport (e : String)
  | metadata
  | status (s : Status)
  | other (message : String)
deriving DecidableEq, Repr

/-- The bytes a header can hold. -/
def MetadataValue.try_from (value : String) : Option Bytes :=
  if (utf8 value).all fun b => (32 ≤ b && b ≠ 127) || b = 9 then some (utf8 value) else none

/-- How far the clocks of signing and checking may be apart, in seconds. -/
def LEEWAY_SECS : ℕ := 60

/-- **What is signed is good until it expires**, up to the leeway. -/
def Expiring (jwt : Jwt) : Prop :=
  ∀ claims token, jwt.encode claims = .ok token → ∀ now,
    (jwt.decode now token).toOption = if now ≤ claims.exp + LEEWAY_SECS then some claims else none

/-- What a call carries that shows a token. -/
def bearer (token : String) : Metadata := ⟨some (utf8 ("Bearer " ++ token)), none⟩

namespace FleetClient

/-- `FleetClient::new`. -/
def new : FleetClient := ⟨false, none, none, none⟩

variable (text : UuidText) (jwt : Jwt)

/-- The stream is asked for with a token, and the server answers at a time
in seconds. -/
def event_stream (now : ℕ) (net : Net) (token : String) (c : FleetClient) :
    Except ClientError Unit × FleetClient :=
  match MetadataValue.try_from ("Bearer " ++ token) with
  | none => (.error .metadata, c)
  | some _ =>
    match net with
    | .unreachable e => (.error (.transport e), c)
    | .lost e => (.error (.transport e), c)
    | .answered =>
      match validate_token jwt now (bearer token) with
      | .error s => (.error (.status s), c)
      | .ok _ => (.ok (), { c with inbound_rx := some ⟨[], false⟩ })

/-- `FleetClient::connect`. -/
def connect (now : ℕ) (net : Net) (token : Option String) (c : FleetClient) :
    Except ClientError Unit × FleetClient :=
  match net with
  | .unreachable e => (.error (.transport e), c)
  | net =>
    -- the channel and the token are stored before the stream is asked for
    let c := { c with client := true, token := token }
    match token with
    -- no stream: the sending end of the commands is dropped with the call
    | none => (.ok (), { c with inbound_rx := some ⟨[], true⟩ })
    | some token => c.event_stream jwt now net token

/-- An attempt to connect: how long it takes, in milliseconds, and how far
it gets. -/
structure Attempt where
  elapsed : ℕ
  net : Net

/-- `FleetClient::connect_with_retry`, from a time in milliseconds: what it
returns and when, none while it is still trying. No attempts at most stand
for no limit. -/
def connect_with_retry (max_attempts base_delay : ℕ) (token : Option String) :
    ℕ → ℕ → FleetClient → List Attempt → Option (Except ClientError Unit × ℕ × FleetClient)
  | _, _, _, [] => none
  | attempt, now, c, a :: rest =>
    let attempt := attempt + 1
    let now := now + a.elapsed
    match c.connect jwt (now / 1000) a.net token with
    | (.ok (), c) => some (.ok (), now, c)
    | (.error e, c) =>
      if 0 < max_attempts ∧ max_attempts ≤ attempt then some (.error e, now, c)
      else
        connect_with_retry max_attempts base_delay token attempt
          (now + base_delay * 2 ^ min attempt 5) c rest

/-- `FleetClient::enroll_with_secret`, with what a server answers. -/
def enroll_with_secret
    (register_agent : Metadata → AgentRegistration → Except Status RegistrationResult)
    (request : AgentRegistration) (secret : Option String) (c : FleetClient) :
    Except ClientError RegistrationResult × FleetClient :=
  if c.client then
    match register_agent ⟨none, secret.bind MetadataValue.try_from⟩ request with
    | .error s => (.error (.status s), c)
    | .ok response =>
      match text.parse response.node_id with
      | .error e =>
        (.error (.other ("Fleet server returned malformed node_id '" ++ response.node_id ++ "': " ++
          e)), c)
      | .ok node_id =>
        (.ok response, { c with node_id := some node_id, token := some response.token })
  else (.error (.other "Not connected"), c)

/-- `FleetClient::try_receive`. -/
def try_receive (c : FleetClient) :
    Except ClientError (Option OutgoingCommand) × FleetClient :=
  match c.inbound_rx with
  | none => (.error (.other "Not connected"), c)
  | some ⟨msg :: rest, closed⟩ => (.ok (some msg), { c with inbound_rx := some ⟨rest, closed⟩ })
  | some ⟨[], false⟩ => (.ok none, c)
  | some ⟨[], true⟩ => (.error (.other "Inbound channel closed (server disconnected)"), c)

/-- The client holds a stream that is open. -/
def Open (c : FleetClient) : Prop := ∃ queue, c.inbound_rx = some ⟨queue, false⟩

/-- A server that answers opens a stream for the token. -/
def Accepts (now : ℕ) (token : String) : Prop :=
  (MetadataValue.try_from ("Bearer " ++ token)).isSome ∧
    (validate_token jwt now (bearer token)).toOption.isSome

variable {text jwt} {now : ℕ} {net : Net} {token : String} {c : FleetClient}

/-- **What comes of asking for a stream**: it is open where the server
answers and finds the token good, and all is as it was otherwise. -/
theorem event_stream_cases (jwt : Jwt) (now : ℕ) (net : Net) (token : String) (c : FleetClient) :
    (net = .answered ∧ Accepts jwt now token ∧
      c.event_stream jwt now net token = (.ok (), { c with inbound_rx := some ⟨[], false⟩ })) ∨
    (¬(net = .answered ∧ Accepts jwt now token) ∧
      ∃ e, c.event_stream jwt now net token = (.error e, c)) := by
  unfold event_stream Accepts
  cases hheader : MetadataValue.try_from ("Bearer " ++ token) with
  | none => exact .inr ⟨by simp, _, rfl⟩
  | some b =>
    cases net with
    | unreachable e => exact .inr ⟨by simp, _, rfl⟩
    | lost e => exact .inr ⟨by simp, _, rfl⟩
    | answered =>
      cases hvalid : validate_token jwt now (bearer token) with
      | error s =>
        exact .inr ⟨by simp [Except.toOption], .status s, rfl⟩
      | ok claims =>
        exact .inl ⟨rfl, by simp [Except.toOption], rfl⟩

/-- What the server reads of the header is the token. -/
theorem strip_prefix_append (pre s : String) : strip_prefix pre (pre ++ s) = some s := by
  simp [ strip_prefix]

/-- **A token that was accepted once** is accepted whenever it decodes. -/
theorem accepts_iff_decode {now' : ℕ} (h : Accepts jwt now' token) :
    Accepts jwt now token ↔ (jwt.decode now token).toOption.isSome := by
  obtain ⟨hheader, hvalid⟩ := h
  have hread : to_str (utf8 ("Bearer " ++ token)) = some ("Bearer " ++ token) := by
    by_contra hnot
    have hnone : to_str (utf8 ("Bearer " ++ token)) = none := by
      unfold to_str at hnot ⊢
      split
      · next hvisible => exact absurd (by rw [if_pos hvisible, fromUtf8?_utf8]) hnot
      · rfl
    simp [validate_token, bearer, hnone, Except.toOption] at hvalid
  have hdecode : validate_token jwt now (bearer token) =
      (jwt.decode now token).mapError fun _ => ⟨.unauthenticated, "invalid or expired token"⟩ := by
    simp only [validate_token, bearer, hread, strip_prefix_append]
  rw [Accepts, hdecode, and_iff_right hheader]
  cases jwt.decode now token <;> rfl

/-- **What comes of connecting with the token the client has.** -/
theorem connect_cases (htoken : c.token = some token) (jwt : Jwt) (now : ℕ) (net : Net) :
    (net = .answered ∧ Accepts jwt now token ∧ c.connect jwt now net (some token) =
      (.ok (), { c with client := true, inbound_rx := some ⟨[], false⟩ })) ∨
    (¬(net = .answered ∧ Accepts jwt now token) ∧ ∃ e c',
      c.connect jwt now net (some token) = (.error e, c') ∧ c'.token = some token ∧
        c'.inbound_rx = c.inbound_rx) := by
  have hstored : { c with client := true, token := some token } = { c with client := true } := by
    rw [← htoken]
  unfold connect
  cases net with
  | unreachable e => exact .inr ⟨by simp, _, c, rfl, htoken, rfl⟩
  | lost e =>
    dsimp only
    rw [hstored]
    rcases event_stream_cases jwt now (.lost e) token { c with client := true } with
      ⟨hnet, -⟩ | ⟨hnot, e', h⟩
    · cases hnet
    · exact .inr ⟨hnot, e', _, h, htoken, rfl⟩
  | answered =>
    dsimp only
    rw [hstored]
    rcases event_stream_cases jwt now .answered token { c with client := true } with
      ⟨hnet, haccepts, h⟩ | ⟨hnot, e', h⟩
    · exact .inl ⟨hnet, haccepts, h⟩
    · exact .inr ⟨hnot, e', _, h, htoken, rfl⟩

/-- **What is received**: a command, nothing from an open stream, or the end
of the stream. -/
theorem try_receive_cases (c : FleetClient) :
    (∃ msg rest closed, c.inbound_rx = some ⟨msg :: rest, closed⟩ ∧
      c.try_receive = (.ok (some msg), { c with inbound_rx := some ⟨rest, closed⟩ })) ∨
    (c.inbound_rx = some ⟨[], false⟩ ∧ c.try_receive = (.ok none, c)) ∨
    ((c.inbound_rx = none ∨ c.inbound_rx = some ⟨[], true⟩) ∧
      ∃ e, c.try_receive = (.error e, c)) := by
  unfold try_receive
  cases c.inbound_rx with
  | none => exact .inr (.inr ⟨.inl rfl, _, rfl⟩)
  | some rx =>
    obtain ⟨queue, closed⟩ := rx
    cases queue with
    | cons msg rest => exact .inl ⟨msg, rest, closed, rfl, rfl⟩
    | nil =>
      cases closed with
      | false => exact .inr (.inl ⟨rfl, rfl⟩)
      | true => exact .inr (.inr ⟨.inr rfl, _, rfl⟩)

/-- **When retrying succeeds**, the last attempt did, with the token. -/
theorem connect_with_retry_eq_ok {max_attempts base_delay attempt start stop : ℕ}
    {attempts : List Attempt} {c' : FleetClient} (htoken : c.token = some token)
    (h : c.connect_with_retry jwt max_attempts base_delay (some token) attempt start attempts =
      some (.ok (), stop, c')) :
    Accepts jwt (stop / 1000) token ∧ c'.token = some token ∧ c'.Open := by
  induction attempts generalizing attempt start c with
  | nil => cases h
  | cons a rest ih =>
    unfold connect_with_retry at h
    rcases connect_cases htoken jwt ((start + a.elapsed) / 1000) a.net with
      ⟨-, haccepts, hconnect⟩ | ⟨-, e, c₁, hconnect, htoken₁, -⟩
    · simp only [hconnect, Option.some.injEq, Prod.mk.injEq, true_and] at h
      obtain ⟨rfl, rfl⟩ := h
      exact ⟨haccepts, htoken, [], rfl⟩
    · simp only [hconnect] at h
      split at h
      · cases h
      · exact ih htoken₁ h

/-- **When enrolling succeeds**, the server did, and its token is stored. -/
theorem enroll_with_secret_eq_ok
    {register_agent : Metadata → AgentRegistration → Except Status RegistrationResult}
    {request : AgentRegistration} {secret : Option String} {response : RegistrationResult}
    {c' : FleetClient}
    (h : c.enroll_with_secret text register_agent request secret = (.ok response, c')) :
    register_agent ⟨none, secret.bind MetadataValue.try_from⟩ request = .ok response ∧
      c'.token = some response.token := by
  unfold enroll_with_secret at h
  split at h
  · split at h
    · cases h
    · next response' hanswer =>
      split at h
      · cases h
      · cases h
        exact ⟨hanswer, rfl⟩
  · cases h

end FleetClient

end AigisZero.Agent
