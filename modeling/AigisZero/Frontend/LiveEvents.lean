import AigisZero.Library.Json
import AigisZero.Library.Machine
import Mathlib.Algebra.Order.Field.Rat

/-!
# The live events of the console

`useLiveEvents` keeps one WebSocket open while its component is mounted,
puts what it receives into a buffer, and shows the buffer at the next
animation frame. Its effect runs again when an option changes: what the
run before has started is cancelled through references that outlive it,
and what it has started and cannot cancel, the `onclose` of its socket,
comes later. The browser decides when.
-/

namespace AigisZero.Frontend

/-! ## Messages -/

/-- What JavaScript takes for true. Whether the literal of a number is zero
is left to the engine. -/
def truthy (isZero : String → Bool) : Json → Bool
  | .null => false
  | .bool b => b
  | .int i => i != 0
  | .float literal => !isZero literal
  | .str s => s != ""
  | .arr _ => true
  | .obj _ => true

/-- The event that a value is: it says of what type, and that is no control
message of the server. -/
def liveEvent? (isZero : String → Bool) (parsed : Json) : Option Json :=
  match parsed.get? "type" with
  | none => none
  | some type =>
    if truthy isZero type then
      if type.asStr? = some "pong" ∨ type.asStr? = some "subscribed" ∨
          type.asStr? = some "error" then none
      else some parsed
    else none

/-! ## What the browser keeps -/

/-- `WebSocket.readyState`. -/
inductive ReadyState where
  | connecting
  | open
  | closing
  | closed
deriving DecidableEq, Repr

/-- `ConnectionState`. -/
inductive ConnectionState where
  | connecting
  | connected
  | disconnected
deriving DecidableEq, Repr

/-- A run of the effect that connects, and the option its closures see. -/
structure Effect where
  id : ℕ
  maxEvents : ℕ
deriving DecidableEq, Repr

/-- A WebSocket, whose handlers are closures of the effect. -/
structure WebSocket where
  effect : Effect
  readyState : ReadyState
  /-- `onopen` was called. -/
  opened : Bool
deriving DecidableEq, Repr

/-- `close()`. The handshake or the closing handshake goes on. -/
def WebSocket.close (socket : WebSocket) : WebSocket :=
  match socket.readyState with
  | .connecting => { socket with readyState := .closing }
  | .open => { socket with readyState := .closing }
  | _ => socket

/-- A `setTimeout(connect, delay)`. -/
structure Timeout where
  effect : Effect
  delay : ℚ
  /-- It has neither run nor been cleared. -/
  pending : Bool

/-- A `setInterval` of the heartbeat of a socket. -/
structure Interval where
  socket : ℕ
  running : Bool
deriving DecidableEq, Repr

/-- A `requestAnimationFrame` of a flush. -/
structure AnimationFrame where
  maxEvents : ℕ
  /-- It has neither run nor been cancelled. -/
  pending : Bool
deriving DecidableEq, Repr

/-- `UseLiveEventsOptions`. Two arrays of topics are the same only when
they are one array, so what stands for one is where it is. -/
structure Options where
  topics : Option ℕ
  nodeId : Option String
  maxEvents : ℕ
  enabled : Bool
deriving DecidableEq, Repr

/-- What the hook has received and what it shows, and the animation frames
in between. Handles are places in the list of what was requested. -/
structure Screen where
  events : List Json
  totalEventCount : ℕ
  eventsPerSecond : ℕ
  recentCountRef : ℕ
  pendingBufferRef : List Json
  animationFrameRef : Option ℕ
  frames : List AnimationFrame

/-- **The hook**, with all that the browser keeps for it. -/
structure LiveEvents where
  /-- What it was last rendered with, while it is mounted. -/
  options : Option Options
  /-- How often the effect has run. -/
  effects : ℕ
  /-- The run of the effect that is not cleaned up: `isUnmounted` is false
  in its closures, and true in those of all others. -/
  mounted : Option Effect
  /-- The interval that counts events is set. -/
  counting : Bool
  connectionState : ConnectionState
  socketRef : Option ℕ
  reconnectTimeoutRef : Option ℕ
  reconnectAttemptsRef : ℕ
  heartbeatIntervalRef : Option ℕ
  sockets : List WebSocket
  timeouts : List Timeout
  intervals : List Interval
  /-- The sockets that pings were sent on. -/
  pings : List ℕ
  screen : Screen

/-- What the browser, React and the page do. -/
inductive LiveAction where
  | render (options : Options)
  | unmount
  | clearEvents
  /-- The interval that counts events. -/
  | second
  | opened (socket : ℕ)
  /-- A frame, and what `JSON.parse` makes of it. -/
  | message (socket : ℕ) (parsed : Option Json)
  | errored (socket : ℕ)
  /-- The connection is closed, and `Math.random() * 500` is drawn. -/
  | closed (socket : ℕ) (jitter : ℚ)
  | timeout (timeout : ℕ)
  | heartbeat (interval : ℕ)
  | frame (frame : ℕ)

/-- What is done to the object a reference holds, if it holds one. -/
def atRef {α : Type*} (ref : Option ℕ) (f : α → α) (l : List α) : List α :=
  match ref with
  | some i => l.modify i f
  | none => l

/-! ## The buffer -/

namespace Screen

def empty : Screen := ⟨[], 0, 0, 0, [], none, []⟩

/-- `clearEvents`. -/
def clearEvents (s : Screen) : Screen := { s with events := [], pendingBufferRef := [] }

/-- `scheduleBufferFlush`, of an effect. -/
def scheduleBufferFlush (s : Screen) (maxEvents : ℕ) : Screen :=
  if s.animationFrameRef.isSome then s
  else { s with
    animationFrameRef := some s.frames.length
    frames := s.frames ++ [⟨maxEvents, true⟩] }

/-- The flush, at its animation frame. -/
def flush (s : Screen) (maxEvents : ℕ) : Screen :=
  let s := { s with animationFrameRef := none }
  if s.pendingBufferRef.isEmpty then s
  else { s with
    pendingBufferRef := []
    events := (s.pendingBufferRef.reverse ++ s.events).take maxEvents }

/-- An event is received. -/
def receive (s : Screen) (maxEvents : ℕ) (event : Json) : Screen :=
  { s with
    recentCountRef := s.recentCountRef + 1
    totalEventCount := s.totalEventCount + 1
    pendingBufferRef := s.pendingBufferRef ++ [event] }.scheduleBufferFlush maxEvents

/-- The interval that counts events. -/
def second (s : Screen) : Screen :=
  { s with eventsPerSecond := s.recentCountRef, recentCountRef := 0 }

/-- `cancelAnimationFrame(animationFrameRef.current)`. -/
def cancel (s : Screen) : Screen :=
  { s with frames := atRef s.animationFrameRef ({ · with pending := false }) s.frames }

end Screen

section References

variable {α : Type*} {ref : Option ℕ} {f : α → α} {l : List α} {x y : α} {i k : ℕ}

/-- What a reference was followed to, and what it was not. -/
theorem getElem?_atRef (h : (atRef ref f l)[k]? = some y) :
    (ref = some k ∧ ∃ x, l[k]? = some x ∧ y = f x) ∨ (ref ≠ some k ∧ l[k]? = some y) := by
  cases ref with
  | none => exact .inr ⟨nofun, h⟩
  | some i =>
    have h : (l.modify i f)[k]? = some y := h
    rw [List.getElem?_modify] at h
    obtain ⟨x, hx, rfl⟩ := Option.map_eq_some_iff.1 h
    by_cases hik : i = k
    · subst hik
      rw [if_pos rfl]
      exact .inl ⟨rfl, x, hx, rfl⟩
    · rw [if_neg hik]
      exact .inr ⟨fun h => hik (Option.some.inj h), hx⟩

/-- What all have, and what is done to one of them keeps, all have. -/
theorem forall_mem_atRef {P : α → Prop} (hl : ∀ x ∈ l, P x) (hf : ∀ x, P x → P (f x)) :
    ∀ y ∈ atRef ref f l, P y := by
  intro y hy
  obtain ⟨k, hk⟩ := List.mem_iff_getElem?.1 hy
  rcases getElem?_atRef hk with ⟨-, x, hx, rfl⟩ | ⟨-, hx⟩
  · exact hf x (hl x (List.mem_of_getElem? hx))
  · exact hl y (List.mem_of_getElem? hx)

/-- What is done to an element puts another in its place. -/
theorem modify_eq_set_of (h : l[i]? = some x) : l.modify i f = l.set i (f x) := by
  refine List.ext_getElem? fun k => ?_
  rw [List.getElem?_modify, List.getElem?_set]
  by_cases hik : i = k
  · subst hik
    obtain ⟨hlt, rfl⟩ := List.getElem?_eq_some_iff.1 h
    simp [hlt]
  · cases l[k]? <;> simp [hik]

end References

@[simp] theorem effect_close (socket : WebSocket) : socket.close.effect = socket.effect := by
  unfold WebSocket.close
  split <;> rfl

namespace LiveEvents

/-- The first render is to come. -/
def init : LiveEvents where
  options := none
  effects := 0
  mounted := none
  counting := false
  connectionState := .disconnected
  socketRef := none
  reconnectTimeoutRef := none
  reconnectAttemptsRef := 0
  heartbeatIntervalRef := none
  sockets := []
  timeouts := []
  intervals := []
  pings := []
  screen := .empty

/-- `isUnmounted` of a run of the effect. -/
def isUnmounted (s : LiveEvents) (effect : Effect) : Bool := s.mounted ≠ some effect

/-- A socket changes its state. -/
def setSocket (s : LiveEvents) (i : ℕ) (socket : WebSocket) : LiveEvents :=
  { s with sockets := s.sockets.set i socket }

/-! ## The connection -/

/-- `getBackoffDelay` without its jitter, in milliseconds. -/
def backoff (attempts : ℕ) : ℚ := min 30000 (1000 * (3 / 2) ^ attempts)

/-- `connect`. -/
def connect (s : LiveEvents) (effect : Effect) : LiveEvents :=
  if s.isUnmounted effect then s
  else { s with
    connectionState := .connecting
    sockets := s.sockets ++ [⟨effect, .connecting, false⟩]
    socketRef := some s.sockets.length }

/-- `clearInterval(heartbeatIntervalRef.current)`. -/
def clearHeartbeat (s : LiveEvents) : LiveEvents :=
  { s with intervals := atRef s.heartbeatIntervalRef ({ · with running := false }) s.intervals }

/-- `onmessage`. -/
def onmessage (isZero : String → Bool) (s : LiveEvents) (effect : Effect)
    (parsed : Option Json) : LiveEvents :=
  match parsed.bind (liveEvent? isZero) with
  | some event => { s with screen := s.screen.receive effect.maxEvents event }
  | none => s

/-- `onopen`, of a socket that has become open. -/
def onopen (s : LiveEvents) (i : ℕ) (effect : Effect) : LiveEvents :=
  if s.isUnmounted effect then { s with sockets := s.sockets.modify i WebSocket.close }
  else
    let s := { s with connectionState := .connected, reconnectAttemptsRef := 0 }.clearHeartbeat
    { s with
      heartbeatIntervalRef := some s.intervals.length
      intervals := s.intervals ++ [⟨i, true⟩] }

/-- `onclose`. -/
def onclose (s : LiveEvents) (effect : Effect) (jitter : ℚ) : LiveEvents :=
  let s := { s.clearHeartbeat with heartbeatIntervalRef := none }
  if s.isUnmounted effect then s
  else { s with
    connectionState := .disconnected
    socketRef := none
    reconnectAttemptsRef := s.reconnectAttemptsRef + 1
    reconnectTimeoutRef := some s.timeouts.length
    timeouts := s.timeouts ++ [⟨effect, backoff s.reconnectAttemptsRef + jitter, true⟩] }

/-! ## The effects -/

/-- What the effect that connects leaves to be done: all it has started is
cancelled, and no reference is reset. -/
def cleanup (s : LiveEvents) : LiveEvents :=
  match s.mounted with
  | none => s
  | some _ => { s.clearHeartbeat with
      mounted := none
      timeouts := atRef s.reconnectTimeoutRef ({ · with pending := false }) s.timeouts
      screen := s.screen.cancel
      sockets := atRef s.socketRef WebSocket.close s.sockets }

/-- The effect that connects. -/
def runEffect (s : LiveEvents) (options : Options) : LiveEvents :=
  if options.enabled then
    let effect : Effect := ⟨s.effects, options.maxEvents⟩
    { s with effects := s.effects + 1, mounted := some effect }.connect effect
  else s

/-- A render. An effect runs again when what it depends on has changed: the
count on `enabled`, the connection on all options. -/
def render (s : LiveEvents) (options : Options) : LiveEvents :=
  let s := { s with counting := options.enabled }
  if s.options = some options then s
  else { s.cleanup with options := some options }.runEffect options

/-- The component is unmounted. -/
def unmount (s : LiveEvents) : LiveEvents :=
  { s.cleanup with options := none, counting := false }

/-! ## The hook as a machine -/

section Machine

variable (isZero : String → Bool)

/-- **The hook as a machine.** A socket that was asked to close gets no
message any more, and is closed once. -/
def machine : Machine LiveEvents LiveAction where
  step s
    | .render options => some (s.render options)
    | .unmount => some s.unmount
    | .clearEvents => some { s with screen := s.screen.clearEvents }
    | .second => if s.counting then some { s with screen := s.screen.second } else none
    | .opened i =>
      match s.sockets[i]? with
      | some ⟨effect, readyState, false⟩ =>
        if readyState = .closed then none
        else some ((s.setSocket i ⟨effect, .open, true⟩).onopen i effect)
      | _ => none
    | .message i parsed =>
      match s.sockets[i]? with
      | some ⟨effect, .open, _⟩ => some (s.onmessage isZero effect parsed)
      | _ => none
    | .errored i =>
      match s.sockets[i]? with
      | some ⟨_, .open, _⟩ => some { s with sockets := s.sockets.modify i WebSocket.close }
      | some _ => some s
      | none => none
    | .closed i jitter =>
      match s.sockets[i]? with
      | some ⟨effect, readyState, opened⟩ =>
        if readyState ≠ .closed ∧ 0 ≤ jitter ∧ jitter < 500 then
          some ((s.setSocket i ⟨effect, .closed, opened⟩).onclose effect jitter)
        else none
      | none => none
    | .timeout j =>
      match s.timeouts[j]? with
      | some ⟨effect, delay, true⟩ =>
        some ({ s with timeouts := s.timeouts.set j ⟨effect, delay, false⟩ }.connect effect)
      | _ => none
    | .heartbeat j =>
      match s.intervals[j]? with
      | some ⟨i, true⟩ =>
        match s.sockets[i]? with
        | some ⟨_, .open, _⟩ => some { s with pings := s.pings ++ [i] }
        | _ => some s
      | _ => none
    | .frame j =>
      match s.screen.frames[j]? with
      | some ⟨maxEvents, true⟩ =>
        some { s with
          screen :=
            { s.screen with frames := s.screen.frames.set j ⟨maxEvents, false⟩ }.flush maxEvents }
      | _ => none

end Machine

/-! ## What a step does -/

variable {isZero : String → Bool} {s t : LiveEvents} {a : LiveAction} {i j : ℕ}

theorem step_second (h : (machine isZero).step s .second = some t) :
    t = { s with screen := s.screen.second } := by
  simp only [machine] at h
  split at h
  · exact (Option.some.inj h).symm
  · cases h

/-- A socket opens once, and not after it is closed. -/
theorem step_opened (h : (machine isZero).step s (.opened i) = some t) :
    ∃ effect readyState, s.sockets[i]? = some ⟨effect, readyState, false⟩ ∧
      readyState ≠ .closed ∧
      t = (s.setSocket i ⟨effect, .open, true⟩).onopen i effect := by
  simp only [machine] at h
  split at h
  · rename_i effect readyState hi
    split at h
    · cases h
    · rename_i hstate
      exact ⟨effect, readyState, hi, hstate, (Option.some.inj h).symm⟩
  · cases h

theorem step_message {parsed : Option Json}
    (h : (machine isZero).step s (.message i parsed) = some t) :
    ∃ effect opened, s.sockets[i]? = some ⟨effect, .open, opened⟩ ∧
      t = s.onmessage isZero effect parsed := by
  simp only [machine] at h
  split at h
  · rename_i effect opened hi
    exact ⟨effect, opened, hi, (Option.some.inj h).symm⟩
  · cases h

/-- An error closes what is open. -/
theorem step_errored (h : (machine isZero).step s (.errored i) = some t) :
    (∃ effect opened, s.sockets[i]? = some ⟨effect, .open, opened⟩ ∧
      t = { s with sockets := s.sockets.modify i WebSocket.close }) ∨ t = s := by
  simp only [machine] at h
  split at h
  · rename_i effect opened hi
    exact .inl ⟨effect, opened, hi, (Option.some.inj h).symm⟩
  · exact .inr (Option.some.inj h).symm
  · cases h

/-- A socket is closed once. -/
theorem step_closed {jitter : ℚ} (h : (machine isZero).step s (.closed i jitter) = some t) :
    ∃ effect readyState opened, s.sockets[i]? = some ⟨effect, readyState, opened⟩ ∧
      readyState ≠ .closed ∧ 0 ≤ jitter ∧ jitter < 500 ∧
      t = (s.setSocket i ⟨effect, .closed, opened⟩).onclose effect jitter := by
  simp only [machine] at h
  split at h
  · rename_i effect readyState opened hi
    split at h
    · rename_i hguard
      exact ⟨effect, readyState, opened, hi, hguard.1, hguard.2.1, hguard.2.2,
        (Option.some.inj h).symm⟩
    · cases h
  · cases h

theorem step_timeout (h : (machine isZero).step s (.timeout j) = some t) :
    ∃ effect delay, s.timeouts[j]? = some ⟨effect, delay, true⟩ ∧
      t = { s with timeouts := s.timeouts.set j ⟨effect, delay, false⟩ }.connect effect := by
  simp only [machine] at h
  split at h
  · rename_i effect delay hj
    exact ⟨effect, delay, hj, (Option.some.inj h).symm⟩
  · cases h

/-- The interval of a socket sends pings on it while it is open. -/
theorem step_heartbeat (h : (machine isZero).step s (.heartbeat j) = some t) :
    ∃ i, s.intervals[j]? = some ⟨i, true⟩ ∧
      ((∃ effect opened, s.sockets[i]? = some ⟨effect, .open, opened⟩ ∧
        t = { s with pings := s.pings ++ [i] }) ∨ t = s) := by
  simp only [machine] at h
  split at h
  · rename_i i hj
    refine ⟨i, hj, ?_⟩
    split at h
    · rename_i effect opened hi
      exact .inl ⟨effect, opened, hi, (Option.some.inj h).symm⟩
    · exact .inr (Option.some.inj h).symm
  · cases h

theorem step_frame (h : (machine isZero).step s (.frame j) = some t) :
    ∃ maxEvents, s.screen.frames[j]? = some ⟨maxEvents, true⟩ ∧
      t = { s with
        screen := { s.screen with
          frames := s.screen.frames.set j ⟨maxEvents, false⟩ }.flush maxEvents } := by
  simp only [machine] at h
  split at h
  · rename_i maxEvents hj
    exact ⟨maxEvents, hj, (Option.some.inj h).symm⟩
  · cases h

/-! ## What the handlers do in a run of the effect -/

section Handlers

variable {effect : Effect} {jitter : ℚ}

theorem connect_of_mounted (h : s.mounted = some effect) : s.connect effect = { s with
    connectionState := .connecting
    sockets := s.sockets ++ [⟨effect, .connecting, false⟩]
    socketRef := some s.sockets.length } := by
  simp [connect, isUnmounted, h]

theorem onopen_of_mounted (h : s.mounted = some effect) : s.onopen i effect = { s with
    connectionState := .connected
    reconnectAttemptsRef := 0
    heartbeatIntervalRef := some s.clearHeartbeat.intervals.length
    intervals := s.clearHeartbeat.intervals ++ [⟨i, true⟩] } := by
  simp [onopen, isUnmounted, h, clearHeartbeat]

/-- A run that was cleaned up closes what opens. -/
theorem onopen_of_unmounted (h : s.mounted ≠ some effect) :
    s.onopen i effect = { s with sockets := s.sockets.modify i WebSocket.close } := by
  simp [onopen, isUnmounted, h]

theorem onclose_of_mounted (h : s.mounted = some effect) : s.onclose effect jitter = { s with
    connectionState := .disconnected
    socketRef := none
    reconnectAttemptsRef := s.reconnectAttemptsRef + 1
    reconnectTimeoutRef := some s.timeouts.length
    timeouts := s.timeouts ++ [⟨effect, backoff s.reconnectAttemptsRef + jitter, true⟩]
    heartbeatIntervalRef := none
    intervals := s.clearHeartbeat.intervals } := by
  simp [onclose, isUnmounted, h, clearHeartbeat]

/-- A run that was cleaned up clears the heartbeat there is. -/
theorem onclose_of_unmounted (h : s.mounted ≠ some effect) : s.onclose effect jitter = { s with
    heartbeatIntervalRef := none
    intervals := s.clearHeartbeat.intervals } := by
  simp [onclose, isUnmounted, h, clearHeartbeat]

end Handlers

/-! ## What the connection does to the screen -/

@[simp] theorem connect_screen {effect : Effect} : (s.connect effect).screen = s.screen := by
  unfold connect
  split <;> rfl

@[simp] theorem onopen_screen {effect : Effect} : (s.onopen i effect).screen = s.screen := by
  unfold onopen
  split <;> rfl

@[simp] theorem onclose_screen {effect : Effect} {jitter : ℚ} :
    (s.onclose effect jitter).screen = s.screen := by
  unfold onclose
  dsimp only
  split <;> rfl

@[simp] theorem runEffect_screen {options : Options} :
    (s.runEffect options).screen = s.screen := by
  unfold runEffect
  split
  · exact connect_screen
  · rfl

/-- The action has the effect cleaned up. -/
def CleansUp (s : LiveEvents) : LiveAction → Prop
  | .render options => s.mounted.isSome ∧ s.options ≠ some options
  | .unmount => s.mounted.isSome
  | _ => False

theorem cleanup_screen :
    s.cleanup.screen = if s.mounted.isSome then s.screen.cancel else s.screen := by
  unfold cleanup
  cases s.mounted <;> rfl

/-- **A render keeps the screen, or cancels its frame.** -/
theorem render_screen (options : Options) :
    s.CleansUp (.render options) ∧ (s.render options).screen = s.screen.cancel ∨
      ¬ s.CleansUp (.render options) ∧ (s.render options).screen = s.screen := by
  unfold render CleansUp
  dsimp only
  by_cases hsame : s.options = some options
  · rw [if_pos hsame]
    exact .inr ⟨fun h => h.2 hsame, rfl⟩
  · rw [if_neg hsame, runEffect_screen]
    show _ ∧ LiveEvents.screen (cleanup _) = _ ∨ _ ∧ LiveEvents.screen (cleanup _) = _
    rw [cleanup_screen]
    cases s.mounted with
    | none => exact .inr ⟨fun h => Bool.false_ne_true h.1, rfl⟩
    | some effect => exact .inl ⟨⟨rfl, hsame⟩, rfl⟩

theorem unmount_screen : s.CleansUp .unmount ∧ s.unmount.screen = s.screen.cancel ∨
    ¬ s.CleansUp .unmount ∧ s.unmount.screen = s.screen := by
  unfold unmount CleansUp
  dsimp only
  rw [cleanup_screen]
  cases s.mounted with
  | none => exact .inr ⟨Bool.false_ne_true, rfl⟩
  | some effect => exact .inl ⟨rfl, rfl⟩

end LiveEvents

end AigisZero.Frontend
