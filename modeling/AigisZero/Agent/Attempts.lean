import AigisZero.Agent.FleetClient
import AigisZero.Library.Machine

/-!
# The attempts that the parts of the client come from

An attempt to connect stores the channel and the token as soon as the
channel is there, and the ends of the streams only once the server has
opened them. An attempt that fails in between leaves the channel and the
token of one attempt beside the streams of another. So the client is of one
attempt, in every state that its calls reach, exactly as long as each
attempt that gets a channel gets its stream too.
-/

namespace AigisZero.Agent

open Fleet

/-- The client, with the attempt that each of its parts comes from. -/
structure AttemptedClient where
  /-- How many attempts there were. They are numbered from zero. -/
  attempts : ℕ
  client : Option ℕ
  outbound_tx : Option ℕ
  inbound_rx : Option (ℕ × Inbound)
  node_id : Option Uuid
  token : Option (ℕ × String)
deriving DecidableEq, Repr

/-- What an attempt meets. -/
inductive Dial where
  /-- The endpoint is none, or the channel does not connect. -/
  | unreachable (e : String)
  /-- The channel connects, and this comes of asking for a stream, where it
  is asked for. -/
  | connected (stream : Except ClientError Unit)

/-- There is no channel. -/
def Dial.Unreached : Dial → Prop
  | .unreachable _ => True
  | .connected _ => False

/-- There is a channel, and a stream where it is asked for. -/
def Dial.Opens (token : Option String) : Dial → Prop
  | .unreachable _ => False
  | .connected stream =>
    ∀ t ∈ token, (MetadataValue.try_from ("Bearer " ++ t)).isSome ∧ stream = .ok ()

/-- The attempt gets all that it asks for, or not even a channel. -/
def Dial.AllOrNothing (token : Option String) (dial : Dial) : Prop :=
  dial.Unreached ∨ dial.Opens token

namespace AttemptedClient

/-- `FleetClient::new`. -/
def new : AttemptedClient := ⟨0, none, none, none, none, none⟩

/-- `FleetClient::connect`. -/
def connect (dial : Dial) (token : Option String) (c : AttemptedClient) :
    Except ClientError Unit × AttemptedClient :=
  let attempt := c.attempts
  let c := { c with attempts := attempt + 1 }
  match dial with
  | .unreachable e => (.error (.transport e), c)
  | .connected stream =>
    let c := { c with client := some attempt, token := token.map fun t => (attempt, t) }
    match token with
    | none =>
      -- the sending end of the commands is dropped with the call
      (.ok (), { c with outbound_tx := some attempt, inbound_rx := some (attempt, ⟨[], true⟩) })
    | some t =>
      match MetadataValue.try_from ("Bearer " ++ t) with
      | none => (.error .metadata, c)
      | some _ =>
        match stream with
        | .error e => (.error e, c)
        | .ok () =>
          (.ok (), { c with
            outbound_tx := some attempt
            inbound_rx := some (attempt, ⟨[], false⟩) })

/-- `FleetClient::connect_with_retry` but for the time it takes: what it
returns, none while it is still trying. No attempts at most stand for no
limit. -/
def connect_with_retry (max_attempts : ℕ) (token : Option String) :
    ℕ → AttemptedClient → List Dial → Option (Except ClientError Unit × AttemptedClient)
  | _, _, [] => none
  | attempt, c, dial :: rest =>
    let attempt := attempt + 1
    match c.connect dial token with
    | (.ok (), c) => some (.ok (), c)
    | (.error e, c) =>
      if 0 < max_attempts ∧ max_attempts ≤ attempt then some (.error e, c)
      else connect_with_retry max_attempts token attempt c rest

/-- `FleetClient::enroll_with_secret`. The token comes over the channel of
an attempt. -/
def enroll_with_secret (text : UuidText)
    (register_agent : Metadata → AgentRegistration → Except Status RegistrationResult)
    (request : AgentRegistration) (secret : Option String) (c : AttemptedClient) :
    Except ClientError RegistrationResult × AttemptedClient :=
  match c.client with
  | none => (.error (.other "Not connected"), c)
  | some attempt =>
    match register_agent ⟨none, secret.bind MetadataValue.try_from⟩ request with
    | .error s => (.error (.status s), c)
    | .ok response =>
      match text.parse response.node_id with
      | .error e =>
        (.error (.other ("Fleet server returned malformed node_id '" ++ response.node_id ++ "': " ++
          e)), c)
      | .ok node_id =>
        (.ok response, { c with node_id := some node_id, token := some (attempt, response.token) })

/-! ## What is claimed -/

/-- What an attempt sets. -/
def parts (c : AttemptedClient) :
    Option ℕ × Option (ℕ × String) × Option ℕ × Option (ℕ × Inbound) :=
  (c.client, c.token, c.outbound_tx, c.inbound_rx)

/-- The attempts are numbered. -/
structure Numbered (c : AttemptedClient) : Prop where
  client : ∀ n ∈ c.client, n < c.attempts
  outbound_tx : ∀ n ∈ c.outbound_tx, n < c.attempts

/-- The parts of the client are all of one attempt. -/
structure Together (c : AttemptedClient) : Prop where
  token : ∀ t ∈ c.token, c.client = some t.1
  outbound_tx : c.outbound_tx = c.client
  inbound_rx : c.inbound_rx.map Prod.fst = c.client

end AttemptedClient

/-- A call of the client, with what it meets. -/
inductive ClientCall where
  | connect (dial : Dial) (token : Option String)
  | connect_with_retry (max_attempts : ℕ) (token : Option String) (dials : List Dial)
  | enroll_with_secret
      (register_agent : Metadata → AgentRegistration → Except Status RegistrationResult)
      (request : AgentRegistration) (secret : Option String)

/-- The attempts that a limit leaves. -/
def tried (max_attempts : ℕ) (dials : List Dial) : List Dial :=
  if max_attempts = 0 then dials else dials.take max_attempts

/-- An attempt of the call gets all that it asks for, or none of them gets
a channel. -/
def ClientCall.AllOrNothing : ClientCall → Prop
  | .connect dial token => dial.AllOrNothing token
  | .connect_with_retry max_attempts token dials =>
    (∃ dial ∈ tried max_attempts dials, dial.Opens token) ∨
      ∀ dial ∈ tried max_attempts dials, dial.Unreached
  | .enroll_with_secret .. => True

namespace AttemptedClient

/-- **The client and the calls on it**, those that return. -/
def machine (text : UuidText) : Machine AttemptedClient ClientCall where
  step c
    | .connect dial token => some (c.connect dial token).2
    | .connect_with_retry max_attempts token dials =>
      (c.connect_with_retry max_attempts token 0 dials).map Prod.snd
    | .enroll_with_secret register_agent request secret =>
      some (c.enroll_with_secret text register_agent request secret).2

variable {text : UuidText} {c c' : AttemptedClient} {dial : Dial} {token : Option String}

/-! ## The client without its attempts -/

/-- The client without the attempts. -/
def toFleetClient (c : AttemptedClient) : FleetClient :=
  ⟨c.client.isSome, c.inbound_rx.map Prod.snd, c.node_id, c.token.map Prod.snd⟩

/-- What a network and a server make of an attempt. -/
def dialOf (jwt : Jwt) (now : ℕ) (net : Net) (token : Option String) : Dial :=
  match net with
  | .unreachable e => .unreachable e
  | .lost e => .connected (.error (.transport e))
  | .answered =>
    .connected (match token with
      | none => .ok ()
      | some t => ((validate_token jwt now (bearer t)).map fun _ => ()).mapError .status)

/-- **The attempts say nothing else of connecting.** -/
theorem toFleetClient_connect (jwt : Jwt) (now : ℕ) (net : Net) (token : Option String)
    (c : AttemptedClient) :
    (c.toFleetClient.connect jwt now net token) =
      ((c.connect (dialOf jwt now net token) token).1,
        (c.connect (dialOf jwt now net token) token).2.toFleetClient) := by
  unfold FleetClient.connect FleetClient.event_stream connect dialOf
  cases net with
  | unreachable e => rfl
  | lost e =>
    cases token with
    | none => rfl
    | some t =>
      dsimp only
      cases MetadataValue.try_from ("Bearer " ++ t) <;> rfl
  | answered =>
    cases token with
    | none => rfl
    | some t =>
      dsimp only
      cases MetadataValue.try_from ("Bearer " ++ t) with
      | none => rfl
      | some b => cases validate_token jwt now (bearer t) <;> rfl

/-- **Nor of enrolling.** -/
theorem toFleetClient_enroll_with_secret
    (register_agent : Metadata → AgentRegistration → Except Status RegistrationResult)
    (request : AgentRegistration) (secret : Option String) (c : AttemptedClient) :
    c.toFleetClient.enroll_with_secret text register_agent request secret =
      ((c.enroll_with_secret text register_agent request secret).1,
        (c.enroll_with_secret text register_agent request secret).2.toFleetClient) := by
  unfold FleetClient.enroll_with_secret enroll_with_secret
  obtain ⟨attempts, client, tx, rx, node_id, tok⟩ := c
  cases client with
  | none => rfl
  | some n =>
    simp only [toFleetClient, Option.isSome_some, if_true]
    cases register_agent ⟨none, secret.bind MetadataValue.try_from⟩ request with
    | error s => rfl
    | ok response =>
      dsimp only
      cases text.parse response.node_id <;> rfl

/-! ## One attempt -/

/-- **What comes of an attempt**: all that it sets, nothing, or the channel
and the token alone. -/
theorem connect_cases (c : AttemptedClient) (dial : Dial) (token : Option String) :
    (dial.Opens token ∧ ∃ rx, c.connect dial token =
      (.ok (), ⟨c.attempts + 1, some c.attempts, some c.attempts, some (c.attempts, rx), c.node_id,
        token.map fun t => (c.attempts, t)⟩)) ∨
    (dial.Unreached ∧ ∃ e, c.connect dial token =
      (.error e, { c with attempts := c.attempts + 1 })) ∨
    (¬ dial.Opens token ∧ ¬ dial.Unreached ∧ ∃ e, c.connect dial token =
      (.error e, ⟨c.attempts + 1, some c.attempts, c.outbound_tx, c.inbound_rx, c.node_id,
        token.map fun t => (c.attempts, t)⟩)) := by
  unfold connect
  cases dial with
  | unreachable e => exact .inr (.inl ⟨trivial, _, rfl⟩)
  | connected stream =>
    cases token with
    | none => exact .inl ⟨fun t ht => (by cases ht), _, rfl⟩
    | some t =>
      dsimp only
      cases hheader : MetadataValue.try_from ("Bearer " ++ t) with
      | none =>
        refine .inr (.inr ⟨fun h => ?_, id, _, rfl⟩)
        have hsome := (h t rfl).1
        rw [hheader] at hsome
        cases hsome
      | some b =>
        cases stream with
        | error e => exact .inr (.inr ⟨fun h => (by cases (h t rfl).2), id, _, rfl⟩)
        | ok u =>
          refine .inl ⟨fun t' ht' => ?_, _, rfl⟩
          obtain rfl : t = t' := Option.some.inj ht'
          exact ⟨by rw [hheader]; rfl, rfl⟩

theorem not_opens_of_unreached (h : dial.Unreached) : ¬ dial.Opens token := by
  cases dial with
  | unreachable e => exact id
  | connected stream => exact h.elim

/-- An attempt succeeds exactly when it gets all that it asks for. -/
theorem connect_eq (c : AttemptedClient) (dial : Dial) (token : Option String) :
    (dial.Opens token ∧ ∃ c', c.connect dial token = (.ok (), c')) ∨
      (¬ dial.Opens token ∧ ∃ e c', c.connect dial token = (.error e, c')) := by
  rcases connect_cases c dial token with ⟨hopens, rx, h⟩ | ⟨hnone, e, h⟩ | ⟨hnot, -, e, h⟩
  · exact .inl ⟨hopens, _, h⟩
  · exact .inr ⟨not_opens_of_unreached hnone, e, _, h⟩
  · exact .inr ⟨hnot, e, _, h⟩

/-- The channel is of no attempt that is still to come. -/
theorem Numbered.client_ne (hc : c.Numbered) : c.client ≠ some c.attempts :=
  fun h => Nat.lt_irrefl _ (hc.client _ h)

theorem Numbered.outbound_tx_ne (hc : c.Numbered) : c.outbound_tx ≠ some c.attempts :=
  fun h => Nat.lt_irrefl _ (hc.outbound_tx _ h)

theorem numbered_connect (hc : c.Numbered) (dial : Dial) (token : Option String) :
    (c.connect dial token).2.Numbered := by
  have hlt : ∀ {part : Option ℕ}, (∀ n ∈ part, n < c.attempts) → ∀ n ∈ part, n < c.attempts + 1 :=
    fun h n hn => Nat.lt_succ_of_lt (h n hn)
  have hself : ∀ n ∈ some c.attempts, n < c.attempts + 1 := by
    intro n hn
    rw [← Option.some.inj hn]
    exact Nat.lt_succ_self _
  rcases connect_cases c dial token with ⟨-, rx, h⟩ | ⟨-, e, h⟩ | ⟨-, -, e, h⟩
  · rw [h]
    exact ⟨hself, hself⟩
  · rw [h]
    exact ⟨hlt hc.client, hlt hc.outbound_tx⟩
  · rw [h]
    exact ⟨hself, hlt hc.outbound_tx⟩

/-- **An attempt that fails leaves all as it was exactly when it gets no
channel.** -/
theorem connect_unchanged_iff (hc : c.Numbered) (dial : Dial) (token : Option String) :
    (∀ e c', c.connect dial token = (.error e, c') → c'.parts = c.parts) ↔
      dial.AllOrNothing token := by
  rcases connect_cases c dial token with ⟨hopens, rx, h⟩ | ⟨hnone, e, h⟩ | ⟨hnot, hreached, e, h⟩
  · refine iff_of_true (fun e c' h' => ?_) (.inr hopens)
    rw [h] at h'
    cases h'
  · refine iff_of_true (fun e' c' h' => ?_) (.inl hnone)
    rw [h] at h'
    cases h'
    rfl
  · refine iff_of_false (fun hsame => ?_) (fun h' => h'.elim hreached hnot)
    exact hc.client_ne (congrArg Prod.fst (hsame e _ h)).symm

/-- **The client is of one attempt** after one that gets all that it asks
for, and where it was before after one that gets nothing. -/
theorem together_connect_iff (hc : c.Numbered) (dial : Dial) (token : Option String) :
    (c.connect dial token).2.Together ↔ dial.Opens token ∨ dial.Unreached ∧ c.Together := by
  rcases connect_cases c dial token with ⟨hopens, rx, h⟩ | ⟨hnone, e, h⟩ | ⟨hnot, hreached, e, h⟩
  · rw [h]
    refine iff_of_true ⟨fun t ht => ?_, rfl, rfl⟩ (.inl hopens)
    obtain ⟨t', -, rfl⟩ := Option.map_eq_some_iff.1 ht
    rfl
  · rw [h]
    constructor
    · intro ht
      exact .inr ⟨hnone, ht.token, ht.outbound_tx, ht.inbound_rx⟩
    · rintro (hopens | ⟨-, ht⟩)
      · exact absurd hopens (not_opens_of_unreached hnone)
      · exact ⟨ht.token, ht.outbound_tx, ht.inbound_rx⟩
  · rw [h]
    refine iff_of_false (fun ht => hc.outbound_tx_ne ht.outbound_tx) ?_
    rintro (hopens | ⟨hnone, -⟩)
    · exact hnot hopens
    · exact hreached hnone

/-! ## Attempts in a row -/

/-- The attempts that are left are the next one and those after it. -/
theorem attempts_cons {max_attempts attempt : ℕ} (h : max_attempts = 0 ∨ attempt < max_attempts)
    (dial : Dial) (rest : List Dial) :
    (if max_attempts = 0 then dial :: rest else (dial :: rest).take (max_attempts - attempt)) =
      dial :: if max_attempts = 0 then rest else rest.take (max_attempts - (attempt + 1)) := by
  split
  · rfl
  · obtain ⟨k, hk⟩ : ∃ k, max_attempts - attempt = k + 1 :=
      ⟨max_attempts - attempt - 1, by omega⟩
    rw [hk, List.take_succ_cons, show max_attempts - (attempt + 1) = k by omega]

/-- **What comes of attempts up to a limit.** -/
theorem together_connect_with_retry_iff {max_attempts attempt : ℕ} {dials : List Dial}
    {result : Except ClientError Unit} (hc : c.Numbered)
    (hattempt : max_attempts = 0 ∨ attempt < max_attempts)
    (h : c.connect_with_retry max_attempts token attempt dials = some (result, c')) :
    c'.Numbered ∧ (c'.Together ↔
      (∃ dial ∈ if max_attempts = 0 then dials else dials.take (max_attempts - attempt),
        dial.Opens token) ∨
      (∀ dial ∈ if max_attempts = 0 then dials else dials.take (max_attempts - attempt),
        dial.Unreached) ∧ c.Together) := by
  induction dials generalizing attempt c with
  | nil => cases h
  | cons dial rest ih =>
    have hnumbered := numbered_connect hc dial token
    have hone := together_connect_iff hc dial token
    rw [attempts_cons hattempt]
    generalize hlater : (if max_attempts = 0 then rest
      else rest.take (max_attempts - (attempt + 1))) = later
    simp only [List.exists_mem_cons_iff, List.forall_mem_cons]
    unfold connect_with_retry at h
    rcases connect_eq c dial token with ⟨hopens, c₁, hdial⟩ | ⟨hnot, e, c₁, hdial⟩
    · simp only [hdial] at h hnumbered hone
      cases h
      exact ⟨hnumbered, iff_of_true (hone.2 (.inl hopens)) (.inl (.inl hopens))⟩
    · simp only [hdial, hnot, false_or] at h hnumbered hone ⊢
      split at h
      · next hlimit =>
        -- no attempt is left
        cases h
        rw [if_neg (by omega), show max_attempts - (attempt + 1) = 0 by omega, List.take_zero]
          at hlater
        subst hlater
        refine ⟨hnumbered, ?_⟩
        rw [hone]
        simp
      · next hlimit =>
        obtain ⟨hlast, hiff⟩ := ih hnumbered (by omega) h
        refine ⟨hlast, ?_⟩
        rw [hlater] at hiff
        rw [hiff, hone, and_left_comm, and_assoc]

/-! ## Runs -/

theorem numbered_step {call : ClientCall} (hc : c.Numbered)
    (h : (machine text).step c call = some c') : c'.Numbered := by
  cases call with
  | connect dial token =>
    obtain rfl := Option.some.inj h
    exact numbered_connect hc dial token
  | connect_with_retry max_attempts token dials =>
    obtain ⟨⟨result, c₁⟩, hretry, rfl⟩ := Option.map_eq_some_iff.1 h
    exact (together_connect_with_retry_iff hc (by omega) hretry).1
  | enroll_with_secret register_agent request secret =>
    obtain rfl := Option.some.inj h
    unfold enroll_with_secret
    split
    · exact hc
    · split
      · exact hc
      · split <;> exact ⟨hc.client, hc.outbound_tx⟩

/-- The token of an enrollment is of the attempt whose channel it came
over. -/
theorem together_enroll_with_secret (hc : c.Together)
    (register_agent : Metadata → AgentRegistration → Except Status RegistrationResult)
    (request : AgentRegistration) (secret : Option String) :
    (c.enroll_with_secret text register_agent request secret).2.Together := by
  unfold enroll_with_secret
  split
  · exact hc
  · next attempt hclient =>
    split
    · exact hc
    · split
      · exact hc
      · refine ⟨fun t ht => ?_, hc.outbound_tx, hc.inbound_rx⟩
        obtain rfl := Option.some.inj ht
        exact hclient

/-- **A call keeps the client of one attempt exactly when it gets all that
it asks for, or no channel.** -/
theorem together_step_iff {call : ClientCall} (hc : c.Numbered) (htogether : c.Together)
    (h : (machine text).step c call = some c') : c'.Together ↔ call.AllOrNothing := by
  cases call with
  | connect dial token =>
    obtain rfl := Option.some.inj h
    rw [together_connect_iff hc, and_iff_left htogether, or_comm]
    rfl
  | connect_with_retry max_attempts token dials =>
    obtain ⟨⟨result, c₁⟩, hretry, rfl⟩ := Option.map_eq_some_iff.1 h
    rw [(together_connect_with_retry_iff hc (by omega) hretry).2, and_iff_left htogether]
    rfl
  | enroll_with_secret register_agent request secret =>
    obtain rfl := Option.some.inj h
    exact iff_of_true (together_enroll_with_secret htogether register_agent request secret) trivial

theorem numbered_new : new.Numbered :=
  ⟨fun n hn => (by cases hn), fun n hn => (by cases hn)⟩

/-- **Connecting is all or nothing** in every state of the client, and the
client is of one attempt in every state its calls reach, exactly when each
attempt that gets a channel gets its stream too, or a later one of its call
does. -/
theorem connect_allOrNothing_iff {calls : List ClientCall}
    (hrun : (machine text).run new calls = some c) :
    (∀ (s : AttemptedClient) (dial : Dial) (token : Option String), s.Numbered →
      ((∀ e s', s.connect dial token = (.error e, s') → s'.parts = s.parts) ↔
        dial.AllOrNothing token)) ∧
    ((machine text).Always Together new calls ↔
      (machine text).EveryStep (fun _ call => call.AllOrNothing) new calls) := by
  refine ⟨fun s dial token hs => connect_unchanged_iff hs dial token, ?_⟩
  refine Machine.always_iff_everyStep (I := Numbered) (fun s call t hs ht => numbered_step hs ht)
    (fun s call t hs htogether ht => together_step_iff hs htogether ht) numbered_new ?_ hrun
  exact ⟨fun t ht => (by cases ht), rfl, rfl⟩

/-- The stream is refused to a token that has expired. -/
def expired : Dial :=
  .connected (.error (.status ⟨.unauthenticated, "invalid or expired token"⟩))

/-- The agent connects with a token and again when it has expired. -/
def expiredReconnect : List ClientCall :=
  [.connect (.connected (.ok ())) (some "t"), .connect expired (some "t")]

/-- The client once it has its stream. -/
def streaming : AttemptedClient := ⟨1, some 0, some 0, some (0, ⟨[], false⟩), none, some (0, "t")⟩

/-- **A reconnection that is refused** leaves a channel of its own beside
the streams of the connection before it. -/
theorem not_together_expiredReconnect :
    (∃ e s', streaming.connect expired (some "t") = (.error e, s') ∧
      s'.parts ≠ streaming.parts) ∧
    ¬ (machine .standard).Always Together new expiredReconnect := by
  have hheader : (MetadataValue.try_from ("Bearer " ++ "t")).isSome := by decide
  obtain ⟨header, hheader⟩ := Option.isSome_iff_exists.1 hheader
  have hfirst : new.connect (.connected (.ok ())) (some "t") = (.ok (), streaming) := by
    unfold connect
    simp only [hheader]
    rfl
  have hagain : streaming.connect expired (some "t") =
      (.error (.status ⟨.unauthenticated, "invalid or expired token"⟩),
        { streaming with attempts := 2, client := some 1, token := some (1, "t") }) := by
    unfold connect expired
    simp only [hheader]
    rfl
  refine ⟨⟨_, _, hagain, by decide⟩, fun h => ?_⟩
  have hrun : (machine .standard).run new expiredReconnect =
      some (streaming.connect expired (some "t")).2 := by
    show some ((new.connect (.connected (.ok ())) (some "t")).2.connect expired (some "t")).2 = _
    rw [hfirst]
  rw [hagain] at hrun
  cases (h.last hrun).outbound_tx

/-- The agent connects, enrolls and connects with its token, at the second
attempt. -/
def enrolling : List ClientCall :=
  [.connect (.connected (.ok ())) none,
    .enroll_with_secret (fun _ _ => .ok ⟨"00000000-0000-0000-0000-000000000001", "t"⟩)
      ⟨"host", "linux", "0.1.0", "m"⟩ none,
    .connect_with_retry 0 (some "t") [.unreachable "", .connected (.ok ())]]

theorem connect_allOrNothing_iff_enrolling :
    (∀ (s : AttemptedClient) (dial : Dial) (token : Option String), s.Numbered →
      ((∀ e s', s.connect dial token = (.error e, s') → s'.parts = s.parts) ↔
        dial.AllOrNothing token)) ∧
    ((machine .standard).Always Together new enrolling ↔
      (machine .standard).EveryStep (fun _ call => call.AllOrNothing) new enrolling) := by
  have hrun : ((machine .standard).run new enrolling).isSome := by decide
  obtain ⟨c, hrun⟩ := Option.isSome_iff_exists.1 hrun
  exact connect_allOrNothing_iff hrun

end AttemptedClient

end AigisZero.Agent
