import AigisZero.Frontend.LiveEvents
import Mathlib.Tactic.Linarith
import Mathlib.Tactic.NormNum

/-!
# The connection of the live feed

A run of the effect has one socket, or one timer to open the next, and no
more; what an earlier run has left is closing or closed. Only the `onclose`
of an earlier run still reaches into the references, and takes with it the
heartbeat of the socket that is in use.
-/

namespace AigisZero.Frontend

namespace LiveEvents

variable {isZero : String → Bool} {s t u : LiveEvents} {a : LiveAction} {l : List LiveAction}
  {effect : Effect} {i j k : ℕ}

/-! ## The two states of a connection -/

/-- What the console says while a socket is in use. -/
def shown : ReadyState → ConnectionState
  | .connecting => .connecting
  | _ => .connected

/-- **The effect uses a socket**, its only one, and no timer is set. -/
structure Using (s : LiveEvents) (effect : Effect) (i : ℕ) (readyState : ReadyState) : Prop where
  socketRef : s.socketRef = some i
  socket : s.sockets[i]? = some ⟨effect, readyState, readyState ≠ .connecting⟩
  not_closed : readyState ≠ .closed
  indicator : s.connectionState = shown readyState
  others : ∀ k socket, s.sockets[k]? = some socket → socket.effect = effect → k ≠ i →
    socket.readyState = .closed
  timeouts : ∀ timeout ∈ s.timeouts, timeout.effect = effect → timeout.pending = false

/-- **The effect waits** to open a socket, by its only timer. -/
structure Waiting (s : LiveEvents) (effect : Effect) (j : ℕ) : Prop where
  socketRef : s.socketRef = none
  reconnectTimeoutRef : s.reconnectTimeoutRef = some j
  timeout : ∃ delay, s.timeouts[j]? = some ⟨effect, delay, true⟩
  indicator : s.connectionState = .disconnected
  sockets : ∀ socket ∈ s.sockets, socket.effect = effect → socket.readyState = .closed
  others : ∀ k timeout, s.timeouts[k]? = some timeout → timeout.effect = effect → k ≠ j →
    timeout.pending = false

/-- **The connection is in order.** -/
structure Wired (s : LiveEvents) : Prop where
  /-- Runs of the effect are told apart. -/
  sockets_lt : ∀ socket ∈ s.sockets, socket.effect.id < s.effects
  timeouts_lt : ∀ timeout ∈ s.timeouts, timeout.effect.id < s.effects
  mounted_lt : ∀ effect, s.mounted = some effect → effect.id < s.effects
  /-- What an earlier run has left. -/
  left_sockets : ∀ socket ∈ s.sockets, s.mounted ≠ some socket.effect →
    socket.readyState = .closing ∨ socket.readyState = .closed
  left_timeouts : ∀ timeout ∈ s.timeouts, s.mounted ≠ some timeout.effect →
    timeout.pending = false
  /-- What the run that is not cleaned up has. -/
  has : ∀ effect, s.mounted = some effect →
    (∃ i readyState, s.Using effect i readyState) ∨ ∃ j, s.Waiting effect j
  /-- A socket is opened again after one second to thirty and a half. -/
  delays : ∀ timeout ∈ s.timeouts, 1000 ≤ timeout.delay ∧ timeout.delay < 30500

/-! ## What the references say -/

/-- A socket of the effect that is not closed is the one it uses. -/
theorem Wired.using_of_socket {readyState : ReadyState} {opened : Bool} (h : s.Wired)
    (hmounted : s.mounted = some effect) (hi : s.sockets[i]? = some ⟨effect, readyState, opened⟩)
    (hopen : readyState ≠ .closed) :
    s.Using effect i readyState ∧ opened = decide (readyState ≠ .connecting) := by
  rcases h.has effect hmounted with ⟨k, state, huse⟩ | ⟨j, hwait⟩
  · by_cases hik : i = k
    · subst hik
      have heq := hi.symm.trans huse.socket
      simp only [Option.some.injEq, WebSocket.mk.injEq, true_and] at heq
      obtain ⟨rfl, hopened⟩ := heq
      exact ⟨huse, hopened⟩
    · exact absurd (huse.others i _ hi rfl hik) hopen
  · exact absurd (hwait.sockets _ (List.mem_of_getElem? hi) rfl) hopen

/-- A timer that is set is the one the effect waits for. -/
theorem Wired.waiting_of_timeout {delay : ℚ} (h : s.Wired)
    (hj : s.timeouts[j]? = some ⟨effect, delay, true⟩) :
    s.mounted = some effect ∧ s.Waiting effect j := by
  have hmem := List.mem_of_getElem? hj
  have hmounted : s.mounted = some effect := by
    by_contra hne
    cases h.left_timeouts _ hmem hne
  refine ⟨hmounted, ?_⟩
  rcases h.has effect hmounted with ⟨k, state, huse⟩ | ⟨k, hwait⟩
  · cases huse.timeouts _ hmem rfl
  · by_cases hjk : j = k
    · exact hjk ▸ hwait
    · cases hwait.others j _ hj rfl hjk

/-- What is live is in use. -/
theorem Wired.mounted_of_live {readyState : ReadyState} {opened : Bool} (h : s.Wired)
    (hi : s.sockets[i]? = some ⟨effect, readyState, opened⟩)
    (hlive : readyState = .connecting ∨ readyState = .open) : s.mounted = some effect := by
  by_contra hne
  rcases h.left_sockets _ (List.mem_of_getElem? hi) hne with hstate | hstate <;>
    rcases hlive with rfl | rfl <;> cases hstate

theorem wired_init : init.Wired where
  sockets_lt _ h := absurd h List.not_mem_nil
  timeouts_lt _ h := absurd h List.not_mem_nil
  mounted_lt _ h := by cases h
  left_sockets _ h := absurd h List.not_mem_nil
  left_timeouts _ h := absurd h List.not_mem_nil
  has _ h := by cases h
  delays _ h := absurd h List.not_mem_nil

/-- What does not touch the connection. -/
theorem Wired.congr (h : s.Wired) (heffects : t.effects = s.effects)
    (hmounted : t.mounted = s.mounted) (hsockets : t.sockets = s.sockets)
    (htimeouts : t.timeouts = s.timeouts) (hsocketRef : t.socketRef = s.socketRef)
    (htimeoutRef : t.reconnectTimeoutRef = s.reconnectTimeoutRef)
    (hstate : t.connectionState = s.connectionState) : t.Wired := by
  obtain ⟨h₁, h₂, h₃, h₄, h₅, h₆, h₇⟩ := h
  refine ⟨?_, ?_, ?_, ?_, ?_, ?_, ?_⟩
  · rwa [heffects, hsockets]
  · rwa [heffects, htimeouts]
  · rwa [heffects, hmounted]
  · rwa [hmounted, hsockets]
  · rwa [hmounted, htimeouts]
  · intro effect heffect
    rcases h₆ effect (hmounted ▸ heffect) with ⟨i, readyState, huse⟩ | ⟨j, hwait⟩
    · obtain ⟨g₁, g₂, g₃, g₄, g₅, g₆⟩ := huse
      exact .inl ⟨i, readyState, hsocketRef ▸ g₁, hsockets ▸ g₂, g₃, hstate ▸ g₄, hsockets ▸ g₅,
        htimeouts ▸ g₆⟩
    · obtain ⟨g₁, g₂, g₃, g₄, g₅, g₆⟩ := hwait
      exact .inr ⟨j, hsocketRef ▸ g₁, htimeoutRef ▸ g₂, htimeouts ▸ g₃, hstate ▸ g₄, hsockets ▸ g₅,
        htimeouts ▸ g₆⟩
  · rwa [htimeouts]

/-! ## The effect connects -/

/-- **The effect has nothing running**: it may connect. -/
structure Ready (s : LiveEvents) (effect : Effect) : Prop where
  sockets_lt : ∀ socket ∈ s.sockets, socket.effect.id < s.effects
  timeouts_lt : ∀ timeout ∈ s.timeouts, timeout.effect.id < s.effects
  mounted : s.mounted = some effect
  effect_lt : effect.id < s.effects
  sockets : ∀ socket ∈ s.sockets, socket.readyState = .closing ∨ socket.readyState = .closed
  own_sockets : ∀ socket ∈ s.sockets, socket.effect = effect → socket.readyState = .closed
  timeouts : ∀ timeout ∈ s.timeouts, timeout.pending = false
  delays : ∀ timeout ∈ s.timeouts, 1000 ≤ timeout.delay ∧ timeout.delay < 30500

/-- **It gets a socket.** -/
theorem Ready.connect (h : s.Ready effect) : (s.connect effect).Wired := by
  rw [connect_of_mounted h.mounted]
  refine ⟨?_, h.timeouts_lt, ?_, ?_, ?_, ?_, h.delays⟩
  · intro socket hsocket
    rcases List.mem_append.1 hsocket with hsocket | hsocket
    · exact h.sockets_lt socket hsocket
    · obtain rfl := List.mem_singleton.1 hsocket
      exact h.effect_lt
  · intro other hother
    obtain rfl := Option.some.inj (h.mounted.symm.trans hother)
    exact h.effect_lt
  · intro socket hsocket hne
    rcases List.mem_append.1 hsocket with hsocket | hsocket
    · exact h.sockets socket hsocket
    · obtain rfl := List.mem_singleton.1 hsocket
      exact absurd h.mounted hne
  · intro timeout htimeout _
    exact h.timeouts timeout htimeout
  · intro other hother
    obtain rfl := Option.some.inj (h.mounted.symm.trans hother)
    refine .inl ⟨s.sockets.length, .connecting, rfl, ?_, nofun, rfl, ?_, ?_⟩
    · show (s.sockets ++ [_])[s.sockets.length]? = _
      rw [List.getElem?_append_right (Nat.le_refl _), Nat.sub_self]
      rfl
    · intro k socket hk heffect hne
      have hk : (s.sockets ++ [_])[k]? = some socket := hk
      rcases List.mem_append.1 (List.mem_of_getElem? hk) with hsocket | hsocket
      · exact h.own_sockets socket hsocket heffect
      · have hlen := (List.getElem?_eq_some_iff.1 hk).1
        rw [List.length_append, List.length_singleton] at hlen
        have hlt : k < s.sockets.length := by omega
        rw [List.getElem?_append_left hlt] at hk
        exact h.own_sockets socket (List.mem_of_getElem? hk) heffect
    · intro timeout htimeout _
      exact h.timeouts timeout htimeout

/-! ## The effect is cleaned up -/

theorem close_done (socket : WebSocket) :
    socket.close.readyState = .closing ∨ socket.close.readyState = .closed := by
  obtain ⟨effect, readyState, opened⟩ := socket
  cases readyState
  · exact .inl rfl
  · exact .inl rfl
  · exact .inl rfl
  · exact .inr rfl

/-- **A cleanup leaves nothing that is live.** -/
structure CleanedUp (s : LiveEvents) : Prop where
  sockets_lt : ∀ socket ∈ s.sockets, socket.effect.id < s.effects
  timeouts_lt : ∀ timeout ∈ s.timeouts, timeout.effect.id < s.effects
  mounted : s.mounted = none
  sockets : ∀ socket ∈ s.sockets, socket.readyState = .closing ∨ socket.readyState = .closed
  timeouts : ∀ timeout ∈ s.timeouts, timeout.pending = false
  delays : ∀ timeout ∈ s.timeouts, 1000 ≤ timeout.delay ∧ timeout.delay < 30500

theorem Wired.cleanup (h : s.Wired) : s.cleanup.CleanedUp := by
  cases hmounted : s.mounted with
  | none =>
    have hsame : s.cleanup = s := by rw [LiveEvents.cleanup, hmounted]
    have hne : ∀ effect, s.mounted ≠ some effect := fun effect => hmounted ▸ nofun
    rw [hsame]
    exact ⟨h.sockets_lt, h.timeouts_lt, hmounted,
      fun socket hsocket => h.left_sockets socket hsocket (hne _),
      fun timeout htimeout => h.left_timeouts timeout htimeout (hne _), h.delays⟩
  | some effect =>
    have hcleanup : s.cleanup = { s.clearHeartbeat with
        mounted := none
        timeouts := atRef s.reconnectTimeoutRef ({ · with pending := false }) s.timeouts
        screen := s.screen.cancel
        sockets := atRef s.socketRef WebSocket.close s.sockets } := by
      rw [LiveEvents.cleanup, hmounted]
    rw [hcleanup]
    refine ⟨forall_mem_atRef h.sockets_lt fun socket hlt => (effect_close socket).symm ▸ hlt,
      forall_mem_atRef h.timeouts_lt fun _ hlt => hlt, rfl, ?_, ?_,
      forall_mem_atRef h.delays fun _ hdelay => hdelay⟩
    · intro socket hsocket
      obtain ⟨k, hk⟩ := List.mem_iff_getElem?.1 hsocket
      rcases getElem?_atRef hk with ⟨-, old, hold, rfl⟩ | ⟨href, hold⟩
      · exact close_done old
      · by_cases heffect : socket.effect = effect
        · refine .inr ?_
          rcases h.has effect hmounted with ⟨i, readyState, huse⟩ | ⟨j, hwait⟩
          · exact huse.others k socket hold heffect fun hki => href (hki ▸ huse.socketRef)
          · exact hwait.sockets socket (List.mem_of_getElem? hold) heffect
        · refine h.left_sockets socket (List.mem_of_getElem? hold) fun hsome => heffect ?_
          exact (Option.some.inj (hmounted.symm.trans hsome)).symm
    · intro timeout htimeout
      obtain ⟨k, hk⟩ := List.mem_iff_getElem?.1 htimeout
      rcases getElem?_atRef hk with ⟨-, old, hold, rfl⟩ | ⟨href, hold⟩
      · rfl
      · by_cases heffect : timeout.effect = effect
        · rcases h.has effect hmounted with ⟨i, readyState, huse⟩ | ⟨j, hwait⟩
          · exact huse.timeouts timeout (List.mem_of_getElem? hold) heffect
          · exact hwait.others k timeout hold heffect fun hkj => href
              (hkj ▸ hwait.reconnectTimeoutRef)
        · refine h.left_timeouts timeout (List.mem_of_getElem? hold) fun hsome => heffect ?_
          exact (Option.some.inj (hmounted.symm.trans hsome)).symm

theorem CleanedUp.wired (h : s.CleanedUp) : s.Wired where
  sockets_lt := h.sockets_lt
  timeouts_lt := h.timeouts_lt
  mounted_lt effect heffect := by cases h.mounted.symm.trans heffect
  left_sockets socket hsocket _ := h.sockets socket hsocket
  left_timeouts timeout htimeout _ := h.timeouts timeout htimeout
  has effect heffect := by cases h.mounted.symm.trans heffect
  delays := h.delays

/-- The effect runs where nothing is live. -/
theorem CleanedUp.runEffect (h : s.CleanedUp) (options : Options) :
    (s.runEffect options).Wired := by
  unfold LiveEvents.runEffect
  split
  · have hne : ∀ socket ∈ s.sockets, socket.effect ≠ ⟨s.effects, options.maxEvents⟩ :=
      fun socket hsocket heq => absurd (h.sockets_lt socket hsocket) (by rw [heq]; simp)
    exact Ready.connect
      ⟨fun socket hsocket => Nat.lt_succ_of_lt (h.sockets_lt socket hsocket),
        fun timeout htimeout => Nat.lt_succ_of_lt (h.timeouts_lt timeout htimeout), rfl,
        Nat.lt_succ_self _, h.sockets,
        fun socket hsocket heffect => absurd heffect (hne socket hsocket), h.timeouts, h.delays⟩
  · exact h.wired

/-- **A render keeps the connection in order.** -/
theorem Wired.render (h : s.Wired) (options : Options) : (s.render options).Wired := by
  have hcount : ({ s with counting := options.enabled } : LiveEvents).Wired :=
    h.congr rfl rfl rfl rfl rfl rfl rfl
  unfold LiveEvents.render
  dsimp only
  split
  · exact hcount
  · obtain ⟨h₁, h₂, h₃, h₄, h₅, h₆⟩ := hcount.cleanup
    refine CleanedUp.runEffect ?_ options
    exact ⟨h₁, h₂, h₃, h₄, h₅, h₆⟩

/-! ## A socket changes -/

theorem mem_set_getElem? {α : Type*} {l : List α} {x y : α} (h : (l.set i x)[k]? = some y) :
    (k = i ∧ y = x) ∨ (k ≠ i ∧ l[k]? = some y) := by
  rw [List.getElem?_set] at h
  by_cases hik : i = k
  · rw [if_pos hik] at h
    split at h
    · exact .inl ⟨hik.symm, (Option.some.inj h).symm⟩
    · cases h
  · rw [if_neg hik] at h
    exact .inr ⟨fun hki => hik hki.symm, h⟩

theorem forall_mem_set {α : Type*} {P : α → Prop} {l : List α} {x : α} (hl : ∀ y ∈ l, P y)
    (hx : P x) : ∀ y ∈ l.set i x, P y := by
  intro y hy
  rcases List.mem_or_eq_of_mem_set hy with hy | rfl
  · exact hl y hy
  · exact hx

/-- **A socket of an earlier run closes.** -/
theorem Wired.set_left {socket socket' : WebSocket} (h : s.Wired)
    (hi : s.sockets[i]? = some socket) (heffect : socket'.effect = socket.effect)
    (hleft : s.mounted ≠ some socket.effect)
    (hdone : socket'.readyState = .closing ∨ socket'.readyState = .closed) :
    (s.setSocket i socket').Wired := by
  refine ⟨forall_mem_set h.sockets_lt ?_, h.timeouts_lt, h.mounted_lt,
    forall_mem_set h.left_sockets fun _ => hdone, h.left_timeouts, ?_, h.delays⟩
  · exact heffect ▸ h.sockets_lt socket (List.mem_of_getElem? hi)
  · intro effect hmounted
    have hne : socket.effect ≠ effect := fun heq => hleft (heq ▸ hmounted)
    rcases h.has effect hmounted with ⟨k, readyState, huse⟩ | ⟨j, hwait⟩
    · -- the socket in use is another one
      have hik : i ≠ k := by
        rintro rfl
        obtain rfl := Option.some.inj (hi.symm.trans huse.socket)
        exact hne rfl
      refine .inl ⟨k, readyState, huse.socketRef, ?_, huse.not_closed, huse.indicator, ?_,
        huse.timeouts⟩
      · show (s.sockets.set i socket')[k]? = _
        rw [List.getElem?_set_ne hik]
        exact huse.socket
      · intro m other hm hother hmk
        rcases mem_set_getElem? hm with ⟨-, rfl⟩ | ⟨-, hm⟩
        · exact absurd (heffect.symm.trans hother) hne
        · exact huse.others m other hm hother hmk
    · exact .inr ⟨j, hwait.socketRef, hwait.reconnectTimeoutRef, hwait.timeout, hwait.indicator,
        forall_mem_set hwait.sockets fun hother => absurd (heffect.symm.trans hother) hne,
        hwait.others⟩

/-- **The socket in use opens, or begins to close.** -/
theorem Wired.set_current {readyState : ReadyState} (h : s.Wired)
    (hmounted : s.mounted = some effect) (huse : s.Using effect i readyState)
    {readyState' : ReadyState} (hstate : readyState' = .open ∨ readyState' = .closing) :
    ({ s with
      connectionState := .connected
      sockets := s.sockets.set i ⟨effect, readyState', true⟩ } : LiveEvents).Wired := by
  have hlt := (List.getElem?_eq_some_iff.1 huse.socket).1
  have hconnecting : readyState' ≠ .connecting := by rcases hstate with rfl | rfl <;> nofun
  have hclosed : readyState' ≠ .closed := by rcases hstate with rfl | rfl <;> nofun
  refine ⟨forall_mem_set h.sockets_lt (h.mounted_lt effect hmounted), h.timeouts_lt, h.mounted_lt,
    forall_mem_set h.left_sockets fun hne => absurd hmounted hne, h.left_timeouts, ?_, h.delays⟩
  intro other hother
  obtain rfl := Option.some.inj (hmounted.symm.trans hother)
  refine .inl ⟨i, readyState', huse.socketRef, ?_, hclosed, ?_, ?_, huse.timeouts⟩
  · show (s.sockets.set i _)[i]? = _
    rw [List.getElem?_set, if_pos rfl, if_pos hlt]
    simp [hconnecting]
  · rcases hstate with rfl | rfl <;> rfl
  · intro k socket hk heffect hki
    rcases mem_set_getElem? hk with ⟨heq, -⟩ | ⟨-, hk⟩
    · exact absurd heq hki
    · exact huse.others k socket hk heffect hki

theorem backoff_bounds (attempts : ℕ) : 1000 ≤ backoff attempts ∧ backoff attempts ≤ 30000 := by
  have hpow : (1 : ℚ) ≤ (3 / 2) ^ attempts := one_le_pow₀ (by norm_num)
  unfold backoff
  exact ⟨le_min (by norm_num) (by linarith), min_le_left _ _⟩

/-- **The socket in use is closed**, and the effect waits to open another. -/
theorem Wired.onclose {readyState : ReadyState} {opened : Bool} {jitter : ℚ} (h : s.Wired)
    (hi : s.sockets[i]? = some ⟨effect, readyState, opened⟩) (hopen : readyState ≠ .closed)
    (hpos : 0 ≤ jitter) (hlt : jitter < 500) :
    ((s.setSocket i ⟨effect, .closed, opened⟩).onclose effect jitter).Wired := by
  by_cases hmounted : s.mounted = some effect
  · obtain ⟨huse, -⟩ := h.using_of_socket hmounted hi hopen
    have hset : (s.setSocket i ⟨effect, .closed, opened⟩).mounted = some effect := hmounted
    rw [onclose_of_mounted hset]
    obtain ⟨hmin, hmax⟩ := backoff_bounds s.reconnectAttemptsRef
    have hnew : effect.id < s.effects := h.mounted_lt effect hmounted
    refine ⟨forall_mem_set h.sockets_lt hnew, ?_, h.mounted_lt,
      forall_mem_set h.left_sockets fun hne => absurd hmounted hne, ?_, ?_, ?_⟩
    · intro timeout htimeout
      rcases List.mem_append.1 htimeout with htimeout | htimeout
      · exact h.timeouts_lt timeout htimeout
      · obtain rfl := List.mem_singleton.1 htimeout
        exact hnew
    · intro timeout htimeout hne
      rcases List.mem_append.1 htimeout with htimeout | htimeout
      · exact h.left_timeouts timeout htimeout hne
      · obtain rfl := List.mem_singleton.1 htimeout
        exact absurd hmounted hne
    · intro other hother
      obtain rfl := Option.some.inj (hmounted.symm.trans hother)
      refine .inr ⟨s.timeouts.length, rfl, rfl, ⟨backoff s.reconnectAttemptsRef + jitter, ?_⟩, rfl,
        ?_, ?_⟩
      · show (s.timeouts ++ [_])[s.timeouts.length]? = _
        rw [List.getElem?_append_right (Nat.le_refl _), Nat.sub_self]
        rfl
      · intro socket hsocket heffect
        obtain ⟨k, hk⟩ := List.mem_iff_getElem?.1 hsocket
        rcases mem_set_getElem? hk with ⟨-, rfl⟩ | ⟨hki, hk⟩
        · rfl
        · exact huse.others k socket hk heffect hki
      · intro k timeout hk heffect hne
        have hk : (s.timeouts ++ [_])[k]? = some timeout := hk
        rcases Nat.lt_or_ge k s.timeouts.length with hlt | hge
        · rw [List.getElem?_append_left hlt] at hk
          exact huse.timeouts timeout (List.mem_of_getElem? hk) heffect
        · have hlen := (List.getElem?_eq_some_iff.1 hk).1
          rw [List.length_append, List.length_singleton] at hlen
          exact absurd (Nat.le_antisymm (Nat.le_of_lt_succ hlen) hge) hne
    · intro timeout htimeout
      rcases List.mem_append.1 htimeout with htimeout | htimeout
      · exact h.delays timeout htimeout
      · obtain rfl := List.mem_singleton.1 htimeout
        constructor
        · show 1000 ≤ backoff s.reconnectAttemptsRef + jitter
          linarith
        · show backoff s.reconnectAttemptsRef + jitter < 30500
          linarith
  · have hset : (s.setSocket i ⟨effect, .closed, opened⟩).mounted ≠ some effect := hmounted
    rw [onclose_of_unmounted hset]
    have hleft : s.mounted ≠ some (WebSocket.mk effect readyState opened).effect := hmounted
    have hwired : (s.setSocket i ⟨effect, .closed, opened⟩).Wired :=
      h.set_left hi rfl hleft (.inr rfl)
    exact hwired.congr rfl rfl rfl rfl rfl rfl rfl

/-- **A socket opens**, and closes again if its run is cleaned up. -/
theorem Wired.onopen {readyState : ReadyState} (h : s.Wired)
    (hi : s.sockets[i]? = some ⟨effect, readyState, false⟩) (hopen : readyState ≠ .closed) :
    ((s.setSocket i ⟨effect, .open, true⟩).onopen i effect).Wired := by
  by_cases hmounted : s.mounted = some effect
  · obtain ⟨huse, -⟩ := h.using_of_socket hmounted hi hopen
    have hset : (s.setSocket i ⟨effect, .open, true⟩).mounted = some effect := hmounted
    rw [onopen_of_mounted hset]
    exact (h.set_current hmounted huse (.inl rfl)).congr rfl rfl rfl rfl rfl rfl rfl
  · have hset : (s.setSocket i ⟨effect, .open, true⟩).mounted ≠ some effect := hmounted
    have hopened : (s.sockets.set i ⟨effect, .open, true⟩)[i]? = some ⟨effect, .open, true⟩ := by
      rw [List.getElem?_set, if_pos rfl, if_pos (List.getElem?_eq_some_iff.1 hi).1]
    rw [onopen_of_unmounted hset, setSocket, modify_eq_set_of hopened, List.set_set]
    have hleft : s.mounted ≠ some (WebSocket.mk effect readyState false).effect := hmounted
    exact h.set_left hi rfl hleft (.inl rfl)

/-! ## A step, and a run -/

/-- **A step keeps the connection in order.** -/
theorem Wired.step (h : s.Wired) (ht : (machine isZero).step s a = some t) : t.Wired := by
  cases a with
  | render options =>
    obtain rfl := Option.some.inj ht
    exact h.render options
  | unmount =>
    obtain rfl := Option.some.inj ht
    exact h.cleanup.wired.congr rfl rfl rfl rfl rfl rfl rfl
  | clearEvents =>
    obtain rfl := Option.some.inj ht
    exact h.congr rfl rfl rfl rfl rfl rfl rfl
  | second =>
    obtain rfl := step_second ht
    exact h.congr rfl rfl rfl rfl rfl rfl rfl
  | opened i =>
    obtain ⟨effect, readyState, hi, hopen, rfl⟩ := step_opened ht
    exact h.onopen hi hopen
  | message i parsed =>
    obtain ⟨effect, opened, -, rfl⟩ := step_message ht
    unfold onmessage
    split
    · exact h.congr rfl rfl rfl rfl rfl rfl rfl
    · exact h
  | errored i =>
    rcases step_errored ht with ⟨effect, opened, hi, rfl⟩ | rfl
    · have hmounted := h.mounted_of_live hi (.inr rfl)
      obtain ⟨huse, -⟩ := h.using_of_socket hmounted hi nofun
      obtain rfl : opened = true := by
        have heq := hi.symm.trans huse.socket
        simpa using heq
      rw [modify_eq_set_of hi]
      exact (h.set_current hmounted huse (.inr rfl)).congr rfl rfl rfl rfl rfl rfl huse.indicator
    · exact h
  | closed i jitter =>
    obtain ⟨effect, readyState, opened, hi, hopen, hpos, hlt, rfl⟩ := step_closed ht
    exact h.onclose hi hopen hpos hlt
  | timeout j =>
    obtain ⟨effect, delay, hj, rfl⟩ := step_timeout ht
    obtain ⟨hmounted, hwait⟩ := h.waiting_of_timeout hj
    refine Ready.connect ⟨h.sockets_lt, ?_, hmounted, h.mounted_lt effect hmounted, ?_,
      hwait.sockets, ?_, ?_⟩
    · exact forall_mem_set h.timeouts_lt (h.mounted_lt effect hmounted)
    · intro socket hsocket
      by_cases heffect : socket.effect = effect
      · exact .inr (hwait.sockets socket hsocket heffect)
      · refine h.left_sockets socket hsocket fun hsome => heffect ?_
        exact (Option.some.inj (hmounted.symm.trans hsome)).symm
    · intro timeout htimeout
      obtain ⟨k, hk⟩ := List.mem_iff_getElem?.1 htimeout
      rcases mem_set_getElem? hk with ⟨-, rfl⟩ | ⟨hne, hk⟩
      · rfl
      · by_cases heffect : timeout.effect = effect
        · exact hwait.others k timeout hk heffect hne
        · refine h.left_timeouts timeout (List.mem_of_getElem? hk) fun hsome => heffect ?_
          exact (Option.some.inj (hmounted.symm.trans hsome)).symm
    · have hdelay := h.delays _ (List.mem_of_getElem? hj)
      exact forall_mem_set h.delays hdelay
  | heartbeat j =>
    obtain ⟨i, -, ⟨effect, opened, -, rfl⟩ | rfl⟩ := step_heartbeat ht
    · exact h.congr rfl rfl rfl rfl rfl rfl rfl
    · exact h
  | frame j =>
    obtain ⟨maxEvents, -, rfl⟩ := step_frame ht
    exact h.congr rfl rfl rfl rfl rfl rfl rfl

/-- The connection is in order in every run. -/
theorem wired_run (hrun : (machine isZero).run init l = some t) : t.Wired :=
  Machine.run_preserves (fun _ _ _ h ht => h.step ht) hrun wired_init

/-- A socket that is being opened, or is open. -/
def Live (s : LiveEvents) (i : ℕ) : Prop :=
  ∃ effect readyState opened, s.sockets[i]? = some ⟨effect, readyState, opened⟩ ∧
    (readyState = .connecting ∨ readyState = .open)

/-- A timer that will open a socket. -/
def TimerSet (s : LiveEvents) (j : ℕ) : Prop :=
  ∃ effect delay, s.timeouts[j]? = some ⟨effect, delay, true⟩

/-- What is live is what the effect uses. -/
theorem Wired.using_of_live (h : s.Wired) (hi : s.Live i) :
    ∃ effect readyState, s.mounted = some effect ∧ s.Using effect i readyState := by
  obtain ⟨effect, readyState, opened, hsocket, hlive⟩ := hi
  have hmounted := h.mounted_of_live hsocket hlive
  have hopen : readyState ≠ .closed := by rcases hlive with rfl | rfl <;> nofun
  exact ⟨effect, readyState, hmounted, (h.using_of_socket hmounted hsocket hopen).1⟩

/-- **One connection at a time.** In every run, however renders, closes,
errors and timers fall: one socket is live or one timer is set, not both,
and neither once the effect is cleaned up. A run that is not cleaned up uses
a socket or waits for a timer, what the console says of it is so, and it
waits for one second to thirty and a half. -/
theorem one_connection (hrun : (machine isZero).run init l = some t) :
    (∀ i k, t.Live i → t.Live k → i = k) ∧ (∀ j k, t.TimerSet j → t.TimerSet k → j = k) ∧
    (∀ i j, t.Live i → ¬ t.TimerSet j) ∧
    (t.mounted = none → ∀ i, ¬ t.Live i ∧ ¬ t.TimerSet i) ∧
    (∀ effect, t.mounted = some effect →
      (∃ i readyState, t.Using effect i readyState) ∨ ∃ j, t.Waiting effect j) ∧
    (∀ timeout ∈ t.timeouts, 1000 ≤ timeout.delay ∧ timeout.delay < 30500) := by
  have h := wired_run hrun
  refine ⟨?_, ?_, ?_, ?_, h.has, h.delays⟩
  · intro i k hi hk
    obtain ⟨effect, _, _, huse⟩ := h.using_of_live hi
    obtain ⟨effect', _, _, huse'⟩ := h.using_of_live hk
    exact Option.some.inj (huse.socketRef.symm.trans huse'.socketRef)
  · rintro j k ⟨effect, delay, hj⟩ ⟨effect', delay', hk⟩
    have hwait := (h.waiting_of_timeout hj).2
    have hwait' := (h.waiting_of_timeout hk).2
    exact Option.some.inj (hwait.reconnectTimeoutRef.symm.trans hwait'.reconnectTimeoutRef)
  · rintro i j hi ⟨effect, delay, hj⟩
    obtain ⟨_, _, _, huse⟩ := h.using_of_live hi
    cases huse.socketRef.symm.trans (h.waiting_of_timeout hj).2.socketRef
  · intro hnone i
    constructor
    · intro hi
      obtain ⟨_, _, hmounted, -⟩ := h.using_of_live hi
      cases hnone.symm.trans hmounted
    · rintro ⟨effect, delay, hj⟩
      cases hnone.symm.trans (h.waiting_of_timeout hj).1

/-- A page narrows its feed to a node: the new socket opens before the old
one is closed. -/
def narrows : List LiveAction :=
  [.render ⟨none, none, 10, true⟩, .opened 0, .render ⟨none, some "node", 10, true⟩, .opened 1,
    .closed 0 0]

theorem one_connection_narrows : ∃ t, (machine fun _ => false).run init narrows = some t ∧
    t.Live 1 ∧ ∀ k, t.Live k → 1 = k := by
  have hrun : (machine fun _ => false).run init narrows = some _ := rfl
  have hlive := (one_connection hrun).1 1
  exact ⟨_, hrun, ⟨_, _, _, rfl, .inr rfl⟩, fun k => hlive k ⟨_, _, _, rfl, .inr rfl⟩⟩

/-! ## The heartbeat -/

/-- The interval sends the heartbeat of a socket. -/
def Beats (s : LiveEvents) (j i : ℕ) : Prop := s.intervals[j]? = some ⟨i, true⟩

/-- A heartbeat that runs is the one that can be cleared, and is of the
socket in use. -/
def Beating (s : LiveEvents) : Prop :=
  ∀ j i, s.Beats j i →
    s.heartbeatIntervalRef = some j ∧ s.socketRef = some i ∧ s.mounted ≠ none

/-- What is cleared was all that ran. -/
theorem Beating.clear (h : s.Beating) : ¬ s.clearHeartbeat.Beats j i := by
  intro hj
  rcases getElem?_atRef hj with ⟨-, old, -, hold⟩ | ⟨href, hold⟩
  · cases hold
  · exact href (h j i hold).1

/-- Nothing runs. -/
theorem beating_of_none (h : ∀ j i, ¬ s.Beats j i) : s.Beating :=
  fun j i hj => absurd hj (h j i)

theorem Beating.congr (h : s.Beating) (hintervals : t.intervals = s.intervals)
    (href : t.heartbeatIntervalRef = s.heartbeatIntervalRef) (hsocket : t.socketRef = s.socketRef)
    (hmounted : t.mounted = s.mounted) : t.Beating := by
  unfold Beating Beats
  rw [hintervals, href, hsocket, hmounted]
  exact h

/-- Nothing runs after a cleanup. -/
theorem Beating.cleanup (h : s.Beating) : ¬ s.cleanup.Beats j i := by
  unfold LiveEvents.cleanup
  split
  · rename_i hnone
    exact fun hj => (h j i hj).2.2 hnone
  · exact h.clear

theorem connect_intervals : (s.connect effect).intervals = s.intervals := by
  unfold connect
  split <;> rfl

theorem runEffect_intervals {options : Options} :
    (s.runEffect options).intervals = s.intervals := by
  unfold runEffect
  split
  · exact connect_intervals
  · rfl

/-- A render keeps the heartbeat, or stops it. -/
theorem Beating.render (h : s.Beating) (options : Options) : (s.render options).Beating := by
  unfold LiveEvents.render
  dsimp only
  split
  · exact h.congr rfl rfl rfl rfl
  · refine beating_of_none fun j i => ?_
    rw [Beats, runEffect_intervals]
    exact Beating.cleanup (h.congr rfl rfl rfl rfl)

/-- A socket in use that opens gets a heartbeat. -/
theorem Beating.onopen (hwired : s.Wired) (h : s.Beating) {readyState : ReadyState}
    (hi : s.sockets[i]? = some ⟨effect, readyState, false⟩) (hopen : readyState ≠ .closed) :
    ((s.setSocket i ⟨effect, .open, true⟩).onopen i effect).Beating := by
  by_cases hmounted : s.mounted = some effect
  · obtain ⟨huse, -⟩ := hwired.using_of_socket hmounted hi hopen
    have hset : (s.setSocket i ⟨effect, .open, true⟩).mounted = some effect := hmounted
    rw [onopen_of_mounted hset]
    intro j k hj
    have hj : (s.clearHeartbeat.intervals ++ [⟨i, true⟩])[j]? = some ⟨k, true⟩ := hj
    rcases Nat.lt_or_ge j s.clearHeartbeat.intervals.length with hlt | hge
    · rw [List.getElem?_append_left hlt] at hj
      exact absurd hj h.clear
    · have hlen := (List.getElem?_eq_some_iff.1 hj).1
      rw [List.length_append, List.length_singleton] at hlen
      obtain rfl : j = s.clearHeartbeat.intervals.length :=
        Nat.le_antisymm (Nat.le_of_lt_succ hlen) hge
      rw [List.getElem?_append_right (Nat.le_refl _), Nat.sub_self] at hj
      cases hj
      exact ⟨rfl, huse.socketRef, fun hnone => by cases hnone.symm.trans hset⟩
  · have hset : (s.setSocket i ⟨effect, .open, true⟩).mounted ≠ some effect := hmounted
    rw [onopen_of_unmounted hset]
    exact h.congr rfl rfl rfl rfl

/-- Where a socket closes, nothing beats. -/
theorem Beating.onclose (h : s.Beating) {jitter : ℚ} :
    ∀ j k, ¬ (s.onclose effect jitter).Beats j k := by
  intro j k
  by_cases hmounted : s.mounted = some effect
  · rw [onclose_of_mounted hmounted]
    exact h.clear
  · rw [onclose_of_unmounted hmounted]
    exact h.clear

theorem Beating.step (hwired : s.Wired) (h : s.Beating)
    (ht : (machine isZero).step s a = some t) : t.Beating := by
  cases a with
  | render options =>
    obtain rfl := Option.some.inj ht
    exact h.render options
  | unmount =>
    obtain rfl := Option.some.inj ht
    exact beating_of_none fun j i => h.cleanup
  | clearEvents =>
    obtain rfl := Option.some.inj ht
    exact h.congr rfl rfl rfl rfl
  | second =>
    obtain rfl := step_second ht
    exact h.congr rfl rfl rfl rfl
  | opened i =>
    obtain ⟨effect, readyState, hi, hopen, rfl⟩ := step_opened ht
    exact Beating.onopen hwired h hi hopen
  | message i parsed =>
    obtain ⟨effect, opened, -, rfl⟩ := step_message ht
    unfold onmessage
    split
    · exact h.congr rfl rfl rfl rfl
    · exact h
  | errored i =>
    rcases step_errored ht with ⟨effect, opened, hi, rfl⟩ | rfl
    · exact h.congr rfl rfl rfl rfl
    · exact h
  | closed i jitter =>
    obtain ⟨effect, readyState, opened, hi, hopen, -, -, rfl⟩ := step_closed ht
    have hset : (s.setSocket i ⟨effect, .closed, opened⟩).Beating := h.congr rfl rfl rfl rfl
    exact beating_of_none hset.onclose
  | timeout j =>
    obtain ⟨effect, delay, hj, rfl⟩ := step_timeout ht
    obtain ⟨hmounted, hwait⟩ := hwired.waiting_of_timeout hj
    refine beating_of_none fun k i hk => ?_
    rw [Beats, connect_intervals] at hk
    cases hwait.socketRef.symm.trans (h k i hk).2.1
  | heartbeat j =>
    obtain ⟨i, -, ⟨effect, opened, -, rfl⟩ | rfl⟩ := step_heartbeat ht
    · exact h.congr rfl rfl rfl rfl
    · exact h
  | frame j =>
    obtain ⟨maxEvents, -, rfl⟩ := step_frame ht
    exact h.congr rfl rfl rfl rfl

/-- The effect has a socket that is open. -/
def OpenAt (s : LiveEvents) (i : ℕ) : Prop :=
  ∃ effect opened, s.mounted = some effect ∧ s.sockets[i]? = some ⟨effect, .open, opened⟩

/-- **The socket that is open has a heartbeat.** -/
def Alive (s : LiveEvents) : Prop := ∀ i, s.OpenAt i → ∃ j, s.Beats j i

/-- No socket of an earlier run closes while one is open. -/
def ClosesAlone (s : LiveEvents) : LiveAction → Prop
  | .closed i _ => ∀ socket, s.sockets[i]? = some socket → s.mounted ≠ some socket.effect →
      ∀ k, ¬ s.OpenAt k
  | _ => True

/-- What opens nothing and stops nothing. -/
theorem Alive.congr (h : s.Alive) (hopen : ∀ i, t.OpenAt i → s.OpenAt i)
    (hintervals : t.intervals = s.intervals) : t.Alive := by
  intro i hi
  unfold Beats
  rw [hintervals]
  exact h i (hopen i hi)

/-- Where the effect runs again, no socket is open. -/
theorem CleanedUp.not_openAt (h : s.CleanedUp) (options : Options) :
    ¬ (s.runEffect options).OpenAt i := by
  rintro ⟨effect, opened, -, hi⟩
  have hmem := List.mem_of_getElem? hi
  unfold LiveEvents.runEffect at hmem
  split at hmem
  · rw [connect_of_mounted rfl] at hmem
    rcases List.mem_append.1 hmem with hmem | hmem
    · rcases h.sockets _ hmem with hstate | hstate <;> cases hstate
    · cases List.mem_singleton.1 hmem
  · rcases h.sockets _ hmem with hstate | hstate <;> cases hstate

theorem Alive.render (hwired : s.Wired) (h : s.Alive) (options : Options) :
    (s.render options).Alive := by
  have hcount : ({ s with counting := options.enabled } : LiveEvents).Wired :=
    hwired.congr rfl rfl rfl rfl rfl rfl rfl
  unfold LiveEvents.render
  dsimp only
  split
  · exact h.congr (fun _ => id) rfl
  · obtain ⟨h₁, h₂, h₃, h₄, h₅, h₆⟩ := hcount.cleanup
    intro i hi
    refine absurd hi (CleanedUp.not_openAt ?_ options)
    exact ⟨h₁, h₂, h₃, h₄, h₅, h₆⟩

/-- A socket that changes leaves the others open that are. -/
theorem openAt_setSocket {socket : WebSocket} (hi : (s.setSocket i socket).OpenAt k) :
    (k = i ∧ socket.readyState = .open) ∨ s.OpenAt k := by
  obtain ⟨effect, opened, hmounted, hk⟩ := hi
  rcases mem_set_getElem? hk with ⟨rfl, rfl⟩ | ⟨-, hk⟩
  · exact .inl ⟨rfl, rfl⟩
  · exact .inr ⟨effect, opened, hmounted, hk⟩

/-- **A socket in use that opens gets a heartbeat.** -/
theorem Alive.onopen (hwired : s.Wired) (h : s.Alive) {readyState : ReadyState}
    (hi : s.sockets[i]? = some ⟨effect, readyState, false⟩) (hopen : readyState ≠ .closed) :
    ((s.setSocket i ⟨effect, .open, true⟩).onopen i effect).Alive := by
  by_cases hmounted : s.mounted = some effect
  · obtain ⟨huse, -⟩ := hwired.using_of_socket hmounted hi hopen
    have hset : (s.setSocket i ⟨effect, .open, true⟩).mounted = some effect := hmounted
    rw [onopen_of_mounted hset]
    rintro k ⟨other, opened, hother, hk⟩
    obtain rfl : effect = other := Option.some.inj (hset.symm.trans hother)
    obtain rfl : k = i := by
      by_contra hne
      rcases mem_set_getElem? hk with ⟨heq, -⟩ | ⟨-, hk⟩
      · exact hne heq
      · cases huse.others k _ hk rfl hne
    refine ⟨s.clearHeartbeat.intervals.length, ?_⟩
    show (s.clearHeartbeat.intervals ++ [_])[s.clearHeartbeat.intervals.length]? = _
    rw [List.getElem?_append_right (Nat.le_refl _), Nat.sub_self]
    rfl
  · have hset : (s.setSocket i ⟨effect, .open, true⟩).mounted ≠ some effect := hmounted
    rw [onopen_of_unmounted hset]
    refine h.congr (fun k hk => ?_) rfl
    obtain ⟨other, opened, hother, hk⟩ := hk
    have hne : effect ≠ other := fun heq => hset (heq ▸ hother)
    have hk : ((s.sockets.set i _).modify i WebSocket.close)[k]? = _ := hk
    rw [List.getElem?_modify] at hk
    obtain ⟨old, hold, heq⟩ := Option.map_eq_some_iff.1 hk
    rcases mem_set_getElem? hold with ⟨rfl, rfl⟩ | ⟨hki, hold⟩
    · rw [if_pos rfl] at heq
      cases heq
    · rw [if_neg fun hik => hki hik.symm] at heq
      obtain rfl := heq
      exact ⟨other, opened, hother, hold⟩

/-- **A close stops the heartbeat of the socket that is open exactly when
the socket that closes is not that one.** -/
theorem alive_onclose_iff {opened : Bool} {readyState : ReadyState} {jitter : ℚ}
    (hwired : s.Wired) (hbeat : s.Beating) (hi : s.sockets[i]? = some ⟨effect, readyState, opened⟩)
    (hopen : readyState ≠ .closed) :
    ((s.setSocket i ⟨effect, .closed, opened⟩).onclose effect jitter).Alive ↔
      s.ClosesAlone (.closed i jitter) := by
  have hset : (s.setSocket i ⟨effect, .closed, opened⟩).Beating := hbeat.congr rfl rfl rfl rfl
  by_cases hmounted : s.mounted = some effect
  · -- it was the only one
    obtain ⟨huse, -⟩ := hwired.using_of_socket hmounted hi hopen
    refine iff_of_true ?_ fun socket hsocket hne => ?_
    · have hset : (s.setSocket i ⟨effect, .closed, opened⟩).mounted = some effect := hmounted
      rw [onclose_of_mounted hset]
      rintro k ⟨other, opened', hother, hk⟩
      obtain rfl : effect = other := Option.some.inj (hset.symm.trans hother)
      rcases mem_set_getElem? hk with ⟨-, heq⟩ | ⟨hne, hk⟩
      · cases heq
      · cases huse.others k _ hk rfl hne
    · obtain rfl := Option.some.inj (hi.symm.trans hsocket)
      exact absurd hmounted hne
  · have hunmounted : (s.setSocket i ⟨effect, .closed, opened⟩).mounted ≠ some effect := hmounted
    have hopens : ∀ k, ((s.setSocket i ⟨effect, .closed, opened⟩).onclose effect jitter).OpenAt k ↔
        s.OpenAt k := by
      intro k
      rw [onclose_of_unmounted hunmounted]
      constructor
      · intro hk
        rcases openAt_setSocket (s := s) hk with ⟨-, hstate⟩ | hk
        · cases hstate
        · exact hk
      · rintro ⟨other, opened', hother, hk⟩
        refine ⟨other, opened', hother, ?_⟩
        have hne : i ≠ k := by
          rintro rfl
          cases hi.symm.trans hk
          exact hmounted hother
        exact (List.getElem?_set_ne hne).trans hk
    constructor
    · intro halive socket hsocket hne k hk
      obtain ⟨j, hj⟩ := halive k ((hopens k).2 hk)
      exact hset.onclose j k hj
    · intro halone k hk
      exact absurd ((hopens k).1 hk) (halone _ hi hmounted k)

/-- **A step keeps the heartbeat exactly when no socket of an earlier run
closes under an open one.** -/
theorem alive_step_iff (hwired : s.Wired) (hbeat : s.Beating) (h : s.Alive)
    (ht : (machine isZero).step s a = some t) : t.Alive ↔ s.ClosesAlone a := by
  cases a with
  | render options =>
    obtain rfl := Option.some.inj ht
    exact iff_of_true (h.render hwired options) trivial
  | unmount =>
    obtain rfl := Option.some.inj ht
    refine iff_of_true (fun i hi => ?_) trivial
    obtain ⟨effect, opened, hmounted, -⟩ := hi
    cases hwired.cleanup.mounted.symm.trans hmounted
  | clearEvents =>
    obtain rfl := Option.some.inj ht
    exact iff_of_true (h.congr (fun _ => id) rfl) trivial
  | second =>
    obtain rfl := step_second ht
    exact iff_of_true (h.congr (fun _ => id) rfl) trivial
  | opened i =>
    obtain ⟨effect, readyState, hi, hopen, rfl⟩ := step_opened ht
    exact iff_of_true (Alive.onopen hwired h hi hopen) trivial
  | message i parsed =>
    obtain ⟨effect, opened, -, rfl⟩ := step_message ht
    refine iff_of_true ?_ trivial
    unfold onmessage
    split
    · exact h.congr (fun _ => id) rfl
    · exact h
  | errored i =>
    refine iff_of_true ?_ trivial
    rcases step_errored ht with ⟨effect, opened, hi, rfl⟩ | rfl
    · rw [modify_eq_set_of hi]
      refine h.congr (fun k hk => ?_) rfl
      rcases openAt_setSocket (s := s) hk with ⟨-, hstate⟩ | hk
      · cases hstate
      · exact hk
    · exact h
  | closed i jitter =>
    obtain ⟨effect, readyState, opened, hi, hopen, -, -, rfl⟩ := step_closed ht
    exact alive_onclose_iff hwired hbeat hi hopen
  | timeout j =>
    obtain ⟨effect, delay, hj, rfl⟩ := step_timeout ht
    obtain ⟨hmounted, hwait⟩ := hwired.waiting_of_timeout hj
    refine iff_of_true (fun k hk => ?_) trivial
    -- the socket that is being opened is not open, and the others are closed
    have hset : LiveEvents.mounted { s with
        timeouts := s.timeouts.set j ⟨effect, delay, false⟩ } = some effect := hmounted
    rw [connect_of_mounted hset] at hk
    obtain ⟨other, opened, hother, hk⟩ := hk
    obtain rfl : effect = other := Option.some.inj (hmounted.symm.trans hother)
    rcases List.mem_append.1 (List.mem_of_getElem? hk) with hmem | hmem
    · cases hwait.sockets _ hmem rfl
    · cases List.mem_singleton.1 hmem
  | heartbeat j =>
    obtain ⟨i, -, ⟨effect, opened, -, rfl⟩ | rfl⟩ := step_heartbeat ht
    · exact iff_of_true (h.congr (fun _ => id) rfl) trivial
    · exact iff_of_true h trivial
  | frame j =>
    obtain ⟨maxEvents, -, rfl⟩ := step_frame ht
    exact iff_of_true (h.congr (fun _ => id) rfl) trivial

/-! ## What the console says when it is off -/

/-- **Where no run of the effect is left, the console says so.** -/
def SaysOff (s : LiveEvents) : Prop := s.mounted = none → s.connectionState = .disconnected

/-- The effect is not cleaned up for good while the console says that it
connects. -/
def StopsOff (s : LiveEvents) (a : LiveAction) : Prop :=
  s.CleansUp a → (∃ options, a = .render options ∧ options.enabled = true) ∨
    s.connectionState = .disconnected

theorem cleanup_connectionState : s.cleanup.connectionState = s.connectionState := by
  unfold cleanup
  split <;> rfl

@[simp] theorem connect_mounted : (s.connect effect).mounted = s.mounted := by
  unfold connect
  split <;> rfl

@[simp] theorem onopen_mounted : (s.onopen i effect).mounted = s.mounted := by
  unfold onopen
  split <;> rfl

@[simp] theorem onclose_mounted {jitter : ℚ} :
    (s.onclose effect jitter).mounted = s.mounted := by
  unfold onclose
  dsimp only
  split <;> rfl

/-- **Only React mounts and unmounts**, and what else happens while the
effect is off does not change what the console says. -/
theorem step_mounted (hwired : s.Wired) (ht : (machine isZero).step s a = some t)
    (hrender : ∀ options, a ≠ .render options) (hunmount : a ≠ .unmount) :
    t.mounted = s.mounted ∧ (s.mounted = none → t.connectionState = s.connectionState) := by
  cases a with
  | render options => exact absurd rfl (hrender options)
  | unmount => exact absurd rfl hunmount
  | clearEvents =>
    obtain rfl := Option.some.inj ht
    exact ⟨rfl, fun _ => rfl⟩
  | second =>
    obtain rfl := step_second ht
    exact ⟨rfl, fun _ => rfl⟩
  | opened i =>
    obtain ⟨effect, readyState, hi, hopen, rfl⟩ := step_opened ht
    refine ⟨onopen_mounted, fun hoff => ?_⟩
    have hset : (s.setSocket i ⟨effect, .open, true⟩).mounted ≠ some effect := hoff.symm ▸ nofun
    rw [onopen_of_unmounted hset]
    rfl
  | message i parsed =>
    obtain ⟨effect, opened, -, rfl⟩ := step_message ht
    unfold onmessage
    split
    · exact ⟨rfl, fun _ => rfl⟩
    · exact ⟨rfl, fun _ => rfl⟩
  | errored i =>
    rcases step_errored ht with ⟨effect, opened, hi, rfl⟩ | rfl
    · exact ⟨rfl, fun _ => rfl⟩
    · exact ⟨rfl, fun _ => rfl⟩
  | closed i jitter =>
    obtain ⟨effect, readyState, opened, hi, hopen, -, -, rfl⟩ := step_closed ht
    refine ⟨onclose_mounted, fun hoff => ?_⟩
    have hset : (s.setSocket i ⟨effect, .closed, opened⟩).mounted ≠ some effect :=
      hoff.symm ▸ nofun
    rw [onclose_of_unmounted hset]
    rfl
  | timeout j =>
    obtain ⟨effect, delay, hj, rfl⟩ := step_timeout ht
    refine ⟨connect_mounted, fun hoff => ?_⟩
    cases hoff.symm.trans (hwired.waiting_of_timeout hj).1
  | heartbeat j =>
    obtain ⟨i, -, ⟨effect, opened, -, rfl⟩ | rfl⟩ := step_heartbeat ht
    · exact ⟨rfl, fun _ => rfl⟩
    · exact ⟨rfl, fun _ => rfl⟩
  | frame j =>
    obtain ⟨maxEvents, -, rfl⟩ := step_frame ht
    exact ⟨rfl, fun _ => rfl⟩

/-- A cleanup for good leaves what the console says. -/
theorem saysOff_iff_of_cleanup (h : s.SaysOff) (hmounted : t.mounted = none)
    (hstate : t.connectionState = s.connectionState) :
    t.SaysOff ↔ (s.mounted.isSome → s.connectionState = .disconnected) := by
  unfold SaysOff at h ⊢
  rw [hstate]
  cases hs : s.mounted with
  | none => exact iff_of_true (fun _ => h hs) fun hsome => by cases hsome
  | some effect => exact ⟨fun hoff _ => hoff hmounted, fun hoff _ => hoff rfl⟩

/-- **A step leaves the console right about being off exactly when it does
not turn the effect off while it connects.** -/
theorem saysOff_step_iff (hwired : s.Wired) (h : s.SaysOff)
    (ht : (machine isZero).step s a = some t) : t.SaysOff ↔ s.StopsOff a := by
  by_cases hreact : (∃ options, a = .render options) ∨ a = .unmount
  · rcases hreact with ⟨options, rfl⟩ | rfl
    · obtain rfl := Option.some.inj ht
      unfold StopsOff CleansUp render
      dsimp only
      by_cases hsame : s.options = some options
      · rw [if_pos hsame]
        exact iff_of_true h fun hcleans => absurd hsame hcleans.2
      · rw [if_neg hsame]
        cases henabled : options.enabled with
        | true =>
          refine iff_of_true (fun hoff => ?_) fun _ => .inl ⟨options, rfl, henabled⟩
          unfold runEffect at hoff
          rw [if_pos henabled, connect_mounted] at hoff
          cases hoff
        | false =>
          have hwired : ({ s with counting := false } : LiveEvents).Wired :=
            hwired.congr rfl rfl rfl rfl rfl rfl rfl
          unfold runEffect
          rw [if_neg (by simp [henabled])]
          refine (saysOff_iff_of_cleanup h hwired.cleanup.mounted
            (cleanup_connectionState (s := { s with counting := false }))).trans ?_
          have hoff : ¬ ∃ o, LiveAction.render options = .render o ∧ o.enabled = true := by
            rintro ⟨o, heq, ho⟩
            cases heq
            cases henabled.symm.trans ho
          exact ⟨fun hoff hcleans => .inr (hoff hcleans.1),
            fun hstops hsome => (hstops ⟨hsome, hsame⟩).resolve_left hoff⟩
    · obtain rfl := Option.some.inj ht
      refine (saysOff_iff_of_cleanup h hwired.cleanup.mounted cleanup_connectionState).trans ?_
      have hoff : ¬ ∃ o, LiveAction.unmount = .render o ∧ o.enabled = true := by
        rintro ⟨o, heq, -⟩
        cases heq
      exact ⟨fun hoff hcleans => .inr (hoff hcleans),
        fun hstops hsome => (hstops hsome).resolve_left hoff⟩
  · have hrender : ∀ options, a ≠ .render options :=
      fun options heq => hreact (.inl ⟨options, heq⟩)
    have hunmount : a ≠ .unmount := fun heq => hreact (.inr heq)
    obtain ⟨hmounted, hstate⟩ := step_mounted hwired ht hrender hunmount
    refine iff_of_true (fun hoff => ?_) fun hcleans => ?_
    · rw [hmounted] at hoff
      exact (hstate hoff).trans (h hoff)
    · cases a with
      | render options => exact absurd rfl (hrender options)
      | unmount => exact absurd rfl hunmount
      | _ => exact absurd hcleans id

/-- **What a change of options leaves wrong**, in every run. The socket that
is open has its heartbeat all along if and only if no socket of an earlier
run of the effect closes while one is open. And the console says that it is
disconnected whenever the effect is off if and only if the effect is never
turned off before the console says so. -/
theorem leaves_wrong (hrun : (machine isZero).run init l = some t) :
    ((machine isZero).Always Alive init l ↔ (machine isZero).EveryStep ClosesAlone init l) ∧
    ((machine isZero).Always SaysOff init l ↔ (machine isZero).EveryStep StopsOff init l) := by
  have hempty : ∀ j i, ¬ init.Beats j i := fun j i h => by cases h
  constructor
  · exact Machine.always_iff_everyStep (I := fun s => s.Wired ∧ s.Beating)
      (fun s a t hs ht => ⟨hs.1.step ht, hs.2.step hs.1 ht⟩)
      (fun s a t hs h ht => alive_step_iff hs.1 hs.2 h ht) ⟨wired_init, beating_of_none hempty⟩
      (fun i hi => by obtain ⟨effect, opened, hmounted, -⟩ := hi; cases hmounted) hrun
  · exact Machine.always_iff_everyStep (I := fun s => s.Wired) (fun s a t hs ht => hs.step ht)
      (fun s a t hs h ht => saysOff_step_iff hs h ht) wired_init (fun _ => rfl) hrun

/-- The socket of the node is open, and no heartbeat is left. -/
theorem silent_narrows : ¬ (machine fun _ => false).Always Alive init narrows := by
  intro h
  have hrun : (machine fun _ => false).run init narrows = some _ := rfl
  obtain ⟨hlast, -⟩ := (leaves_wrong hrun).1.1 h |>.2 _ rfl |>.2 _ rfl |>.2 _ rfl |>.2 _ rfl
  exact hlast _ rfl (by decide) 1 ⟨_, _, rfl, rfl⟩

end LiveEvents

end AigisZero.Frontend
