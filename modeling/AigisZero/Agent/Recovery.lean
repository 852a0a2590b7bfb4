import AigisZero.Agent.FleetClient
import AigisZero.Library.Machine
import Mathlib.Order.Nat

/-!
# Recovery

The agent enrolls once, when it starts, and asks for its stream with the
token it got. When the stream is gone, the command listener connects anew,
with the token it has. This file says from which states of the agent that
can come to an open stream again.
-/

namespace AigisZero.Agent

open Fleet

/-- How the agent is told to reach its server. -/
structure FleetSection where
  reconnect_interval_secs : ℕ
  max_reconnect_attempts : ℕ
  enrollment_secret : String

/-- Where the command listener stands. -/
inductive ListenerPc where
  /-- At the top of its loop. -/
  | polling
  /-- A command is with the handler. -/
  | handling (msg : OutgoingCommand)
  /-- The stream is gone, and `connect` is called. -/
  | reconnecting
  | sleeping (until_ms : ℕ)
deriving DecidableEq, Repr

/-- The process, with the time in milliseconds. -/
structure AgentProcess where
  now : ℕ
  fleet : FleetClient
  listener : ListenerPc
  consecutive_errors : ℕ
  /-- When its token was signed, in seconds. No step reads it. -/
  signed_at : ℕ
deriving DecidableEq, Repr

/-- What can happen. -/
inductive ProcessAction where
  | tick (elapsed : ℕ)
  /-- A command arrives on the stream. -/
  | receive (msg : OutgoingCommand)
  /-- The stream ends, or breaks. -/
  | disconnect
  | poll
  | handled
  | connect (net : Net)
  | wake
deriving DecidableEq, Repr

/-- The longest exponent of the backoff. -/
def CMD_MAX_BACKOFF_ERRORS : ℕ := 8
def CMD_BACKOFF_BASE_MS : ℕ := 50
def CMD_BACKOFF_CEILING_MS : ℕ := 12800
def CMD_POLL_INTERVAL_MS : ℕ := 5

/-- How long the listener sleeps after an error, in milliseconds. -/
def backoff_ms (consecutive_errors : ℕ) : ℕ :=
  min (CMD_BACKOFF_BASE_MS * 2 ^ min consecutive_errors CMD_MAX_BACKOFF_ERRORS)
    CMD_BACKOFF_CEILING_MS

/-- The server an agent enrolls with: its secret, its tables, and what the
enrollment draws and meets there. -/
structure EnrollmentServer where
  enrollment_secret : Option String
  draw : EnrollmentDraw
  faults : Faults
  tables : Tables

namespace AgentProcess

variable (text : UuidText) (jwt : Jwt)

/-- The start of the agent: connect, enroll at a time in milliseconds, and
connect with the token. -/
def start (server : EnrollmentServer) (config : FleetSection) (request : AgentRegistration)
    (now : ℕ) (first : List FleetClient.Attempt) (enrolling : ℕ)
    (second : List FleetClient.Attempt) : Option AgentProcess :=
  let connect_with_retry := FleetClient.connect_with_retry jwt config.max_reconnect_attempts
    (config.reconnect_interval_secs * 1000)
  let secret := if config.enrollment_secret = "" then none else some config.enrollment_secret
  match connect_with_retry none 0 now FleetClient.new first with
  | some (.ok (), now, c) =>
    let now := now + enrolling
    let register_agent := fun metadata reg =>
      (Fleet.register_agent text jwt server.enrollment_secret metadata reg server.draw
        server.faults (.ok (now / 1000)) server.tables).1
    match c.enroll_with_secret text register_agent request secret with
    | (.ok response, c) =>
      match connect_with_retry (some response.token) 0 now c second with
      | some (.ok (), now', c) => some ⟨now', c, .polling, 0, now / 1000⟩
      | _ => none
    | (.error _, _) => none
  | _ => none

/-- The listener polls. -/
def poll (s : AgentProcess) : Option AgentProcess :=
  match s.listener with
  | .polling =>
    match s.fleet.try_receive with
    | (.ok none, c) =>
      some { s with
        fleet := c, consecutive_errors := 0
        listener := .sleeping (s.now + CMD_POLL_INTERVAL_MS) }
    | (.ok (some msg), c) =>
      some { s with fleet := c, consecutive_errors := 0, listener := .handling msg }
    | (.error _, c) =>
      some { s with
        fleet := c, listener := .reconnecting
        consecutive_errors := min (s.consecutive_errors + 1) (2 ^ 32 - 1) }
  | _ => none

/-- `connect` returns, called with the token that is stored. -/
def connect (s : AgentProcess) (net : Net) : Option AgentProcess :=
  match s.listener with
  | .reconnecting =>
    -- the sleep follows whatever came of it
    let listener := .sleeping (s.now + backoff_ms s.consecutive_errors)
    match s.fleet.connect jwt (s.now / 1000) net s.fleet.token with
    | (.ok (), c) => some { s with fleet := c, listener := listener, consecutive_errors := 0 }
    | (.error _, c) => some { s with fleet := c, listener := listener }
  | _ => none

/-- **The agent as a machine**, from the end of its start on. -/
def machine : Machine AgentProcess ProcessAction where
  step s
    | .tick elapsed => some { s with now := s.now + elapsed }
    | .receive msg =>
      match s.fleet.inbound_rx with
      | some ⟨queue, false⟩ =>
        some { s with fleet := { s.fleet with inbound_rx := some ⟨queue ++ [msg], false⟩ } }
      | _ => none
    | .disconnect =>
      match s.fleet.inbound_rx with
      | some ⟨queue, false⟩ =>
        some { s with fleet := { s.fleet with inbound_rx := some ⟨queue, true⟩ } }
      | _ => none
    | .poll => s.poll
    | .handled =>
      match s.listener with
      | .handling _ => some { s with listener := .polling }
      | _ => none
    | .connect net => s.connect jwt net
    | .wake =>
      match s.listener with
      | .sleeping until_ms =>
        if until_ms ≤ s.now then some { s with listener := .polling } else none
      | _ => none

/-- The steps of the agent where the server can be reached and answers. -/
def Cooperating : ProcessAction → Prop
  | .receive _ => False
  | .disconnect => False
  | .connect net => net = .answered
  | _ => True

/-- **The agent can recover**: steps of its own, with a server that answers,
lead to an open stream. -/
def Recoverable (s : AgentProcess) : Prop :=
  ∃ l u, (∀ a ∈ l, Cooperating a) ∧ (machine jwt).run s l = some u ∧ u.fleet.Open

/-- The earliest that the listener can connect. -/
def nextAttempt (s : AgentProcess) : ℕ :=
  match s.listener with
  | .sleeping until_ms => max until_ms s.now
  | _ => s.now

/-- The last second at which a token is good that was signed at this one:
its day, and the leeway of the check. -/
def lastGood (signed_at : ℕ) : ℕ := min (signed_at + TOKEN_TTL_SECS) (2 ^ 64 - 1) + LEEWAY_SECS

/-! ## The start -/

/-- **The token of the process**: it is accepted until its last second. -/
def HasToken (s : AgentProcess) : Prop :=
  ∃ token, s.fleet.token = some token ∧
    ∀ now, FleetClient.Accepts jwt now token ↔ now ≤ lastGood s.signed_at

variable {text jwt} {s t u : AgentProcess} {a : ProcessAction} {l : List ProcessAction}

/-- What a registration hands out was signed for a day. -/
theorem encode_of_register_agent {enrollment_secret : Option String} {metadata : Metadata}
    {reg : AgentRegistration} {draw : EnrollmentDraw} {faults : Faults} {now : ℕ} {t : Tables}
    {response : RegistrationResult}
    (h : (Fleet.register_agent text jwt enrollment_secret metadata reg draw faults (.ok now) t).1 =
      .ok response) :
    jwt.encode ⟨response.node_id, min (now + TOKEN_TTL_SECS) (2 ^ 64 - 1)⟩ =
      .ok response.token := by
  have henroll : (NodeEnroller.register_agent text jwt reg draw faults (.ok now) t).1 =
      .ok response → jwt.encode ⟨response.node_id, min (now + TOKEN_TTL_SECS) (2 ^ 64 - 1)⟩ =
        .ok response.token := by
    intro h
    unfold NodeEnroller.register_agent at h
    dsimp only at h
    split at h
    · cases h
    · next node_id _ =>
      split at h
      · cases h
      · next token hsign =>
        cases h
        exact mapError_eq_ok.1 hsign
  unfold Fleet.register_agent at h
  split at h
  · split at h
    · cases h
    · exact henroll h
  · exact henroll h

/-- **After its start the agent has an open stream**, and a token that is
accepted for its day. -/
theorem start_eq_some (hjwt : Expiring jwt) {server : EnrollmentServer} {config : FleetSection}
    {request : AgentRegistration} {now enrolling : ℕ} {first second : List FleetClient.Attempt}
    (h : start text jwt server config request now first enrolling second = some s) :
    HasToken jwt s ∧ s.fleet.Open := by
  unfold start at h
  dsimp only at h
  split at h
  · next now₁ c hfirst =>
    split at h
    · next response c' henroll =>
      split at h
      · next now₂ c'' hsecond =>
        obtain rfl := Option.some.inj h
        obtain ⟨hanswer, htoken⟩ := FleetClient.enroll_with_secret_eq_ok henroll
        have hencode := encode_of_register_agent hanswer
        obtain ⟨haccepts, htoken', hopen⟩ := FleetClient.connect_with_retry_eq_ok htoken hsecond
        refine ⟨⟨response.token, htoken', fun now => ?_⟩, hopen⟩
        rw [FleetClient.accepts_iff_decode haccepts, hjwt _ _ hencode]
        simp [lastGood]
      · cases h
    · cases h
  · cases h

/-! ## What a step does -/

/-- **What a poll finds**: a command, an open stream without one, or no
stream. -/
theorem poll_cases (hlistener : s.listener = .polling) :
    (∃ msg rest closed, s.fleet.inbound_rx = some ⟨msg :: rest, closed⟩ ∧ s.poll = some { s with
      fleet := { s.fleet with inbound_rx := some ⟨rest, closed⟩ }
      consecutive_errors := 0, listener := .handling msg }) ∨
    (s.fleet.inbound_rx = some ⟨[], false⟩ ∧ s.poll = some { s with
      consecutive_errors := 0, listener := .sleeping (s.now + CMD_POLL_INTERVAL_MS) }) ∨
    ((s.fleet.inbound_rx = none ∨ s.fleet.inbound_rx = some ⟨[], true⟩) ∧ s.poll = some { s with
      listener := .reconnecting
      consecutive_errors := min (s.consecutive_errors + 1) (2 ^ 32 - 1) }) := by
  unfold poll
  simp only [hlistener]
  rcases s.fleet.try_receive_cases with
    ⟨msg, rest, closed, hrx, h⟩ | ⟨hrx, h⟩ | ⟨hrx, e, h⟩
  · rw [h]
    exact .inl ⟨msg, rest, closed, hrx, rfl⟩
  · rw [h]
    exact .inr (.inl ⟨hrx, rfl⟩)
  · rw [h]
    exact .inr (.inr ⟨hrx, rfl⟩)

/-- **What comes of reconnecting**, with the token of the process: an open
stream where the server answers in time, and the stream as it was
otherwise. -/
theorem connect_cases (hlistener : s.listener = .reconnecting) (htoken : HasToken jwt s)
    (net : Net) :
    (net = .answered ∧ s.now / 1000 ≤ lastGood s.signed_at ∧ s.connect jwt net = some { s with
      fleet := { s.fleet with client := true, inbound_rx := some ⟨[], false⟩ }
      consecutive_errors := 0, listener := .sleeping (s.now + backoff_ms s.consecutive_errors) }) ∨
    (¬(net = .answered ∧ s.now / 1000 ≤ lastGood s.signed_at) ∧ ∃ c,
      c.token = s.fleet.token ∧ c.inbound_rx = s.fleet.inbound_rx ∧
      s.connect jwt net = some { s with
        fleet := c, listener := .sleeping (s.now + backoff_ms s.consecutive_errors) }) := by
  obtain ⟨token, htoken, haccepts⟩ := htoken
  unfold connect
  simp only [hlistener, htoken, ← haccepts]
  rcases FleetClient.connect_cases htoken jwt (s.now / 1000) net with
    ⟨hnet, hgood, h⟩ | ⟨hnot, e, c, h, hc, hrx⟩
  · rw [h, htoken]
    exact .inl ⟨hnet, hgood, rfl⟩
  · rw [h]
    exact .inr ⟨hnot, c, hc, hrx, rfl⟩

/-- **What every step keeps**: the token stays, no attempt comes earlier
than it could, and a stream is opened by an attempt in time only. -/
structure Keeps (s t : AgentProcess) : Prop where
  token : t.fleet.token = s.fleet.token
  signed_at : t.signed_at = s.signed_at
  nextAttempt : s.nextAttempt ≤ t.nextAttempt
  opens : t.fleet.Open → s.fleet.Open ∨ s.nextAttempt / 1000 ≤ lastGood s.signed_at

/-- The steps that leave the client alone. -/
theorem Keeps.of_fleet (hfleet : t.fleet = s.fleet) (hsigned : t.signed_at = s.signed_at)
    (hnext : s.nextAttempt ≤ t.nextAttempt) : Keeps s t :=
  ⟨by rw [hfleet], hsigned, hnext, fun h => .inl (hfleet ▸ h)⟩

theorem keeps_poll (ht : s.poll = some t) : Keeps s t := by
  have hlistener : s.listener = .polling := by
    unfold poll at ht
    split at ht
    · assumption
    · cases ht
  have hnow : s.nextAttempt = s.now := by rw [nextAttempt, hlistener]
  rcases poll_cases hlistener with
    ⟨msg, rest, closed, hrx, h⟩ | ⟨-, h⟩ | ⟨-, h⟩
  · obtain rfl := Option.some.inj (h.symm.trans ht)
    refine ⟨rfl, rfl, hnow.le, ?_⟩
    rintro ⟨queue, hopen⟩
    cases hopen
    exact .inl ⟨_, hrx⟩
  · obtain rfl := Option.some.inj (h.symm.trans ht)
    exact .of_fleet rfl rfl (hnow.le.trans (le_max_right _ _))
  · obtain rfl := Option.some.inj (h.symm.trans ht)
    exact .of_fleet rfl rfl hnow.le

theorem keeps_connect (htoken : HasToken jwt s) {net : Net}
    (ht : s.connect jwt net = some t) : Keeps s t := by
  have hlistener : s.listener = .reconnecting := by
    unfold connect at ht
    split at ht
    · assumption
    · cases ht
  have hnow : s.nextAttempt = s.now := by rw [nextAttempt, hlistener]
  rcases connect_cases hlistener htoken net with ⟨-, hgood, h⟩ | ⟨-, c, hc, hrx, h⟩
  · obtain rfl := Option.some.inj (h.symm.trans ht)
    exact ⟨rfl, rfl, hnow.le.trans (le_max_right _ _), fun _ => .inr (hnow ▸ hgood)⟩
  · obtain rfl := Option.some.inj (h.symm.trans ht)
    refine ⟨hc, rfl, hnow.le.trans (le_max_right _ _), ?_⟩
    rintro ⟨queue, hopen⟩
    exact .inl ⟨queue, hrx ▸ hopen⟩

/-- **Every step keeps what the process lives on.** -/
theorem keeps_step (htoken : HasToken jwt s) (ht : (machine jwt).step s a = some t) :
    Keeps s t := by
  cases a with
  | tick elapsed =>
    obtain rfl := Option.some.inj ht
    refine .of_fleet rfl rfl ?_
    cases hlistener : s.listener <;> simp only [nextAttempt, hlistener] <;> omega
  | receive msg =>
    simp only [machine] at ht
    split at ht
    · next queue hrx =>
      obtain rfl := Option.some.inj ht
      exact ⟨rfl, rfl, le_rfl, fun _ => .inl ⟨queue, hrx⟩⟩
    · cases ht
  | disconnect =>
    simp only [machine] at ht
    split at ht
    · next queue hrx =>
      obtain rfl := Option.some.inj ht
      exact ⟨rfl, rfl, le_rfl, fun _ => .inl ⟨queue, hrx⟩⟩
    · cases ht
  | poll => exact keeps_poll ht
  | handled =>
    simp only [machine] at ht
    split at ht
    · next msg hlistener =>
      obtain rfl := Option.some.inj ht
      exact .of_fleet rfl rfl (by simp [nextAttempt, hlistener])
    · cases ht
  | connect net => exact keeps_connect htoken ht
  | wake =>
    simp only [machine] at ht
    split at ht
    · next until_ms hlistener =>
      obtain ⟨hslept, ht⟩ := Option.ite_none_right_eq_some.1 ht
      obtain rfl := Option.some.inj ht
      exact .of_fleet rfl rfl (by simp [nextAttempt, hlistener, hslept])
    · cases ht

theorem hasToken_step (h : HasToken jwt s) (ht : (machine jwt).step s a = some t) :
    HasToken jwt t := by
  have hkeeps := keeps_step h ht
  obtain ⟨token, htoken, haccepts⟩ := h
  exact ⟨token, hkeeps.token.trans htoken, fun now => hkeeps.signed_at ▸ haccepts now⟩

theorem hasToken_run (hjwt : Expiring jwt) {server : EnrollmentServer} {config : FleetSection}
    {request : AgentRegistration} {now enrolling : ℕ} {first second : List FleetClient.Attempt}
    (hstart : start text jwt server config request now first enrolling second = some s)
    (hrun : (machine jwt).run s l = some u) : HasToken jwt u :=
  Machine.run_preserves (I := fun s => HasToken jwt s)
    (fun _ _ _ h ht => hasToken_step h ht) hrun (start_eq_some hjwt hstart).1

/-! ## From where the agent recovers -/

/-- **The token is out of date**: there is no stream, and the next attempt
comes too late. -/
structure Expired (s : AgentProcess) : Prop where
  closed : ¬s.fleet.Open
  late : lastGood s.signed_at < s.nextAttempt / 1000

/-- **No step leads out of it**, whatever the server does. -/
theorem expired_step (htoken : HasToken jwt s) (h : Expired s)
    (ht : (machine jwt).step s a = some t) : Expired t := by
  have hkeeps := keeps_step htoken ht
  refine ⟨fun hopen => ?_, ?_⟩
  · rcases hkeeps.opens hopen with hopen | hgood
    · exact h.closed hopen
    · exact absurd hgood (not_le.2 h.late)
  · rw [hkeeps.signed_at]
    exact h.late.trans_le (Nat.div_le_div_right hkeeps.nextAttempt)

/-- **Nor does a run**: no stream is open again, and no server that answers
would accept the next attempt. -/
theorem expired_run (htoken : HasToken jwt s) (h : Expired s)
    (hrun : (machine jwt).run s l = some u) :
    ¬u.fleet.Open ∧
      ∀ token, u.fleet.token = some token →
        ¬FleetClient.Accepts jwt (u.nextAttempt / 1000) token := by
  obtain ⟨⟨token, htoken, haccepts⟩, hexpired⟩ : HasToken jwt u ∧ Expired u :=
    Machine.run_preserves (I := fun s => HasToken jwt s ∧ Expired s)
      (fun _ _ _ h ht => ⟨hasToken_step h.1 ht, expired_step h.1 h.2 ht⟩) hrun ⟨htoken, h⟩
  refine ⟨hexpired.closed, fun token' htoken' hgood => ?_⟩
  obtain rfl : token = token' := Option.some.inj (htoken.symm.trans htoken')
  exact absurd ((haccepts _).1 hgood) (not_le.2 hexpired.late)

theorem not_recoverable_of_expired (htoken : HasToken jwt s) (h : Expired s) :
    ¬Recoverable jwt s := by
  rintro ⟨l, u, -, hrun, hopen⟩
  exact (expired_run htoken h hrun).1 hopen

/-- A step of its own, towards a state the agent recovers from. -/
theorem Recoverable.of_step (ha : Cooperating a) (ht : (machine jwt).step s a = some t)
    (h : Recoverable jwt t) : Recoverable jwt s := by
  obtain ⟨l, u, hl, hrun, hopen⟩ := h
  exact ⟨a :: l, u, List.forall_mem_cons.2 ⟨ha, hl⟩, Machine.run_cons_eq_some.2 ⟨t, ht, hrun⟩,
    hopen⟩

theorem recoverable_of_open (h : s.fleet.Open) : Recoverable jwt s :=
  ⟨[], s, fun _ ha => absurd ha List.not_mem_nil, rfl, h⟩

/-- **From an attempt that is made in time.** -/
theorem recoverable_of_reconnecting (htoken : HasToken jwt s)
    (hlistener : s.listener = .reconnecting) (hgood : s.now / 1000 ≤ lastGood s.signed_at) :
    Recoverable jwt s := by
  rcases connect_cases hlistener htoken .answered with ⟨-, -, h⟩ | ⟨hnot, -⟩
  · exact .of_step (a := .connect .answered) rfl h (recoverable_of_open ⟨[], rfl⟩)
  · exact absurd ⟨rfl, hgood⟩ hnot

/-- **From a poll that is made in time**: the commands that are left are
handled, and then the end of the stream is found. -/
theorem recoverable_of_polling (htoken : HasToken jwt s) (hlistener : s.listener = .polling)
    (hgood : s.now / 1000 ≤ lastGood s.signed_at) : Recoverable jwt s := by
  -- by the number of commands left
  induction hleft : (s.fleet.inbound_rx.elim [] Inbound.queue) generalizing s with
  | nil =>
    rcases poll_cases hlistener with ⟨msg, rest, closed, hrx, -⟩ | ⟨hrx, -⟩ | ⟨-, h⟩
    · simp [hrx] at hleft
    · exact recoverable_of_open ⟨[], hrx⟩
    · exact .of_step (a := .poll) trivial h (recoverable_of_reconnecting htoken rfl hgood)
  | cons msg rest ih =>
    rcases poll_cases hlistener with ⟨msg', rest', closed, hrx, h⟩ | ⟨hrx, -⟩ | ⟨hrx, -⟩
    · obtain ⟨-, rfl⟩ : msg' = msg ∧ rest' = rest := by simpa [hrx] using hleft
      exact .of_step (a := .poll) trivial h (.of_step (a := .handled) trivial rfl
        (ih htoken rfl hgood rfl))
    · simp [hrx] at hleft
    · rcases hrx with hrx | hrx <;> simp [hrx] at hleft

/-- **From wherever the next attempt is in time.** -/
theorem recoverable_of_inTime (htoken : HasToken jwt s)
    (hgood : s.nextAttempt / 1000 ≤ lastGood s.signed_at) : Recoverable jwt s := by
  cases hlistener : s.listener with
  | polling =>
    rw [nextAttempt, hlistener] at hgood
    exact recoverable_of_polling htoken hlistener hgood
  | handling msg =>
    rw [nextAttempt, hlistener] at hgood
    have hstep : (machine jwt).step s .handled = some { s with listener := .polling } := by
      simp only [machine, hlistener]
    exact .of_step (a := .handled) trivial hstep (recoverable_of_polling htoken rfl hgood)
  | reconnecting =>
    rw [nextAttempt, hlistener] at hgood
    exact recoverable_of_reconnecting htoken hlistener hgood
  | sleeping until_ms =>
    -- it sleeps to the end, and polls
    rw [nextAttempt, hlistener] at hgood
    have hslept : s.now + (max until_ms s.now - s.now) = max until_ms s.now := by omega
    have hwake : (machine jwt).step { s with now := max until_ms s.now } .wake =
        some { s with now := max until_ms s.now, listener := .polling } := by
      simp only [machine, hlistener, if_pos (le_max_left until_ms s.now)]
    refine .of_step (a := .tick (max until_ms s.now - s.now)) trivial
      (t := { s with now := max until_ms s.now }) ?_
      (.of_step (a := .wake) trivial hwake (recoverable_of_polling htoken rfl hgood))
    simp only [machine, hslept]

/-- **The agent can recover exactly when it has an open stream, or its next
attempt comes no later than a minute after the day of its token.** -/
theorem recoverable_iff (hjwt : Expiring jwt) (server : EnrollmentServer) (config : FleetSection)
    (request : AgentRegistration) (now enrolling : ℕ) (first second : List FleetClient.Attempt)
    (l : List ProcessAction) (s u : AgentProcess)
    (hstart : start text jwt server config request now first enrolling second = some s)
    (hrun : (machine jwt).run s l = some u) :
    Recoverable jwt u ↔ u.fleet.Open ∨ u.nextAttempt / 1000 ≤ lastGood u.signed_at := by
  have htoken := hasToken_run hjwt hstart hrun
  constructor
  · intro h
    by_contra hnot
    obtain ⟨hclosed, hlate⟩ := not_or.1 hnot
    exact not_recoverable_of_expired htoken ⟨hclosed, not_le.1 hlate⟩ h
  · rintro (hopen | hgood)
    · exact recoverable_of_open hopen
    · exact recoverable_of_inTime htoken hgood

/-! ## A day later -/

/-- Tokens for node `1`, one for each of two days. -/
def twoDays : Jwt where
  encode claims :=
    if claims = ⟨UuidText.standard.print ⟨1⟩, 86400⟩ then .ok "one"
    else if claims = ⟨UuidText.standard.print ⟨1⟩, 172861⟩ then .ok "two"
    else .error "key"
  decode now token :=
    if token = "one" ∧ now ≤ 86460 then .ok ⟨UuidText.standard.print ⟨1⟩, 86400⟩
    else if token = "two" ∧ now ≤ 172921 then .ok ⟨UuidText.standard.print ⟨1⟩, 172861⟩
    else .error "ExpiredSignature"

theorem expiring_twoDays : Expiring twoDays := by
  intro claims token hencode now
  simp only [twoDays] at hencode
  split at hencode
  · next hclaims =>
    cases hencode
    by_cases hnow : now ≤ 86460 <;> simp [twoDays, hclaims, hnow, LEEWAY_SECS, Except.toOption]
  · split at hencode
    · next hclaims =>
      cases hencode
      by_cases hnow : now ≤ 172921 <;> simp [twoDays, hclaims, hnow, LEEWAY_SECS, Except.toOption]
    · cases hencode

/-- A server with a secret, and an agent that knows it. -/
def secretServer : EnrollmentServer := ⟨some "s", ⟨⟨1⟩, ⟨11⟩, 0⟩, fun _ => none, Tables.empty⟩

def knowsSecret : FleetSection := ⟨5, 0, "s"⟩

def machineOne : AgentRegistration := ⟨"a", "linux", "1", "m1"⟩

/-- The agent when it has started. -/
def startedOne : AgentProcess :=
  ⟨0, ⟨true, some ⟨[], false⟩, some ⟨1⟩, some "one"⟩, .polling, 0, 0⟩

theorem start_eq_startedOne :
    start .standard twoDays secretServer knowsSecret machineOne 0 [⟨0, .answered⟩] 0
      [⟨0, .answered⟩] = some startedOne := rfl

/-- **An agent that cannot recover**: its stream breaks after a day, and it
is refused with the token it has, where the server would enroll it anew. -/
theorem not_recoverable_afterDay : ∃ u,
    start .standard twoDays secretServer knowsSecret machineOne 0 [⟨0, .answered⟩] 0
      [⟨0, .answered⟩] = some startedOne ∧
    (machine twoDays).run startedOne [.tick 86461000, .disconnect, .poll, .connect .answered] =
      some u ∧
    (Fleet.register_agent .standard twoDays secretServer.enrollment_secret
      ⟨none, MetadataValue.try_from knowsSecret.enrollment_secret⟩ machineOne secretServer.draw
      secretServer.faults (.ok (u.now / 1000)) secretServer.tables).1 =
        .ok ⟨UuidText.standard.print ⟨1⟩, "two"⟩ ∧
    ¬Recoverable twoDays u := by
  have hrun : (machine twoDays).run startedOne
      [.tick 86461000, .disconnect, .poll, .connect .answered] =
        some ⟨86461000, ⟨true, some ⟨[], true⟩, some ⟨1⟩, some "one"⟩, .sleeping 86461100, 1, 0⟩ :=
    rfl
  have htoken := hasToken_run expiring_twoDays start_eq_startedOne hrun
  refine ⟨_, start_eq_startedOne, hrun, rfl, not_recoverable_of_expired htoken ⟨?_, by decide⟩⟩
  rintro ⟨queue, hopen⟩
  cases hopen

/-- An agent that can: its stream breaks after an hour. -/
theorem recoverable_afterHour : ∃ u,
    (machine twoDays).run startedOne [.tick 3600000, .disconnect] = some u ∧ ¬u.fleet.Open ∧
      Recoverable twoDays u := by
  have hrun : (machine twoDays).run startedOne [.tick 3600000, .disconnect] =
      some ⟨3600000, ⟨true, some ⟨[], true⟩, some ⟨1⟩, some "one"⟩, .polling, 0, 0⟩ := rfl
  refine ⟨_, hrun, ?_, (recoverable_iff expiring_twoDays secretServer knowsSecret machineOne 0 0 _ _
    _ _ _ start_eq_startedOne hrun).2 (.inr (by decide))⟩
  rintro ⟨queue, hopen⟩
  cases hopen

end AgentProcess

end AigisZero.Agent
