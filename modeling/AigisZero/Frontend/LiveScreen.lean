import AigisZero.Frontend.LiveEvents
import Mathlib.Data.List.Basic

/-!
# What the live feed shows

Nothing that the console receives is lost between the buffer and the
screen, and nothing changes its place, as long as the animation frame that
was requested comes. The cleanup of the effect cancels that frame and leaves
its handle behind, so from then on no frame is ever requested again.
-/

namespace AigisZero.Frontend

/-! ## What is received -/

/-- **What was received**: the events since the last `clearEvents`, newest
first, how many there were, and how many in the second that runs. -/
structure Receipts where
  sinceClear : List Json
  total : ℕ
  sinceSecond : ℕ

namespace Receipts

def none : Receipts := ⟨[], 0, 0⟩

def note (isZero : String → Bool) (r : Receipts) (a : LiveAction) : Receipts :=
  match a with
  | .clearEvents => { r with sinceClear := [] }
  | .second => { r with sinceSecond := 0 }
  | .message _ parsed =>
    match parsed.bind (liveEvent? isZero) with
    | some event => ⟨event :: r.sinceClear, r.total + 1, r.sinceSecond + 1⟩
    | Option.none => r
  | _ => r

/-- What a list of actions brings. -/
def of (isZero : String → Bool) (l : List LiveAction) : Receipts := l.foldl (note isZero) none

end Receipts

/-! ## The screen of a step -/

/-- **What an action makes of the screen.** -/
inductive Redraw (isZero : String → Bool) (s : LiveEvents) : LiveAction → Screen → Prop where
  | clear : Redraw isZero s .clearEvents s.screen.clearEvents
  | second : Redraw isZero s .second s.screen.second
  | receive {i : ℕ} {parsed : Option Json} {socket : WebSocket} {event : Json}
      (hsocket : socket ∈ s.sockets)
      (hevent : parsed.bind (liveEvent? isZero) = some event) :
      Redraw isZero s (.message i parsed) (s.screen.receive socket.effect.maxEvents event)
  | flush {j maxEvents : ℕ} (hframe : s.screen.frames[j]? = some ⟨maxEvents, true⟩) :
      Redraw isZero s (.frame j)
        ({ s.screen with frames := s.screen.frames.set j ⟨maxEvents, false⟩ }.flush maxEvents)
  | cancel {a : LiveAction} (hcleans : s.CleansUp a) (hnote : ∀ r, Receipts.note isZero r a = r) :
      Redraw isZero s a s.screen.cancel
  | keep {a : LiveAction} (hkeeps : ¬ s.CleansUp a) (hnote : ∀ r, Receipts.note isZero r a = r) :
      Redraw isZero s a s.screen

namespace LiveEvents

variable {isZero : String → Bool} {s t u : LiveEvents} {a : LiveAction} {l : List LiveAction}

theorem redraw (h : (machine isZero).step s a = some t) : Redraw isZero s a t.screen := by
  cases a with
  | render options =>
    obtain rfl := Option.some.inj h
    rcases s.render_screen options with ⟨hcleans, heq⟩ | ⟨hkeeps, heq⟩
    · exact heq ▸ .cancel hcleans fun _ => rfl
    · exact heq ▸ .keep hkeeps fun _ => rfl
  | unmount =>
    obtain rfl := Option.some.inj h
    rcases s.unmount_screen with ⟨hcleans, heq⟩ | ⟨hkeeps, heq⟩
    · exact heq ▸ .cancel hcleans fun _ => rfl
    · exact heq ▸ .keep hkeeps fun _ => rfl
  | clearEvents =>
    obtain rfl := Option.some.inj h
    exact .clear
  | second =>
    obtain rfl := step_second h
    exact .second
  | opened i =>
    obtain ⟨effect, readyState, -, -, rfl⟩ := step_opened h
    rw [onopen_screen]
    exact .keep id fun _ => rfl
  | message i parsed =>
    obtain ⟨effect, opened, hi, rfl⟩ := step_message h
    cases hevent : parsed.bind (liveEvent? isZero) with
    | none =>
      have hkeep : s.onmessage isZero effect parsed = s := by rw [onmessage, hevent]
      rw [hkeep]
      exact .keep id fun r => by rw [Receipts.note, hevent]
    | some event =>
      have hreceive : (s.onmessage isZero effect parsed).screen =
          s.screen.receive effect.maxEvents event := by rw [onmessage, hevent]
      rw [hreceive]
      exact .receive (List.mem_of_getElem? hi) hevent
  | errored i =>
    rcases step_errored h with ⟨effect, opened, -, rfl⟩ | rfl
    · exact .keep id fun _ => rfl
    · exact .keep id fun _ => rfl
  | closed i jitter =>
    obtain ⟨effect, readyState, opened, -, -, -, -, rfl⟩ := step_closed h
    rw [onclose_screen]
    exact .keep id fun _ => rfl
  | timeout j =>
    obtain ⟨effect, delay, -, rfl⟩ := step_timeout h
    rw [connect_screen]
    exact .keep id fun _ => rfl
  | heartbeat j =>
    obtain ⟨i, -, ⟨effect, opened, -, rfl⟩ | rfl⟩ := step_heartbeat h
    · exact .keep id fun _ => rfl
    · exact .keep id fun _ => rfl
  | frame j =>
    obtain ⟨maxEvents, hj, rfl⟩ := step_frame h
    exact .flush hj

/-! ## Nothing is lost -/

end LiveEvents

namespace Screen

variable {s : Screen} {r : Receipts} {m maxEvents j : ℕ} {event : Json}

/-- **The screen and its buffer are what was received**, newest first:
nothing is missing and nothing moved up to where it ends, and the `m` newest
are there. -/
structure Shows (m : ℕ) (s : Screen) (r : Receipts) : Prop where
  received : s.pendingBufferRef.reverse ++ s.events <+: r.sinceClear
  newest : (s.pendingBufferRef.reverse ++ s.events).take m = r.sinceClear.take m
  total : s.totalEventCount = r.total
  recent : s.recentCountRef = r.sinceSecond
  frames : ∀ frame ∈ s.frames, m ≤ frame.maxEvents

theorem take_cons_congr {α : Type*} {x : α} {l l' : List α} (h : l.take m = l'.take m) :
    (x :: l).take m = (x :: l').take m := by
  cases m with
  | zero => rfl
  | succ m =>
    have hm : l.take m = l'.take m := by
      have htake := congrArg (List.take m) h
      rwa [List.take_take, List.take_take, Nat.min_eq_left (Nat.le_succ m)] at htake
    rw [List.take_succ_cons, List.take_succ_cons, hm]

theorem Shows.scheduleBufferFlush (h : s.Shows m r) (hm : m ≤ maxEvents) :
    (s.scheduleBufferFlush maxEvents).Shows m r := by
  unfold Screen.scheduleBufferFlush
  split
  · exact h
  · refine ⟨h.received, h.newest, h.total, h.recent, fun frame hframe => ?_⟩
    rcases List.mem_append.1 hframe with hframe | hframe
    · exact h.frames frame hframe
    · exact List.mem_singleton.1 hframe ▸ hm

/-- An event goes to the front. -/
theorem Shows.receive (h : s.Shows m r) (hm : m ≤ maxEvents) :
    (s.receive maxEvents event).Shows m
      ⟨event :: r.sinceClear, r.total + 1, r.sinceSecond + 1⟩ := by
  refine Shows.scheduleBufferFlush ⟨?_, ?_, ?_, ?_, h.frames⟩ hm
  · show (s.pendingBufferRef ++ [event]).reverse ++ s.events <+: _
    rw [List.reverse_concat]
    exact List.cons_prefix_cons.2 ⟨rfl, h.received⟩
  · show ((s.pendingBufferRef ++ [event]).reverse ++ s.events).take m = _
    rw [List.reverse_concat]
    exact take_cons_congr h.newest
  · exact congrArg (· + 1) h.total
  · exact congrArg (· + 1) h.recent

/-- A flush drops what is past the bound. -/
theorem Shows.flush (h : s.Shows m r) (hm : m ≤ maxEvents) :
    (s.flush maxEvents).Shows m r := by
  unfold Screen.flush
  dsimp only
  split
  · exact ⟨h.received, h.newest, h.total, h.recent, h.frames⟩
  · refine ⟨?_, ?_, h.total, h.recent, h.frames⟩
    · exact (List.take_prefix ..).trans h.received
    · show ((s.pendingBufferRef.reverse ++ s.events).take maxEvents).take m = _
      rw [List.take_take, Nat.min_eq_left hm, h.newest]

theorem Shows.cancel (h : s.Shows m r) : s.cancel.Shows m r := by
  refine ⟨h.received, h.newest, h.total, h.recent, ?_⟩
  exact forall_mem_atRef h.frames fun _ hm => hm

theorem shows_empty : empty.Shows m .none :=
  ⟨List.nil_prefix, rfl, rfl, rfl, fun _ h => absurd h List.not_mem_nil⟩

end Screen

namespace LiveEvents

variable {isZero : String → Bool} {s t u : LiveEvents} {a : LiveAction} {l : List LiveAction}
  {m : ℕ} {r : Receipts}

/-- The runs of the effect see at least `m`. -/
structure AtLeast (m : ℕ) (s : LiveEvents) : Prop where
  sockets : ∀ socket ∈ s.sockets, m ≤ socket.effect.maxEvents
  timeouts : ∀ timeout ∈ s.timeouts, m ≤ timeout.effect.maxEvents

/-- The option of what is rendered is at least `m`. -/
def RendersAtLeast (m : ℕ) : LiveAction → Prop
  | .render options => m ≤ options.maxEvents
  | _ => True

namespace AtLeast

variable {effect : Effect} {jitter : ℚ} {i : ℕ}

theorem connect (h : s.AtLeast m) (hm : m ≤ effect.maxEvents) :
    (s.connect effect).AtLeast m := by
  unfold LiveEvents.connect
  split
  · exact h
  · refine ⟨fun socket hsocket => ?_, h.timeouts⟩
    rcases List.mem_append.1 hsocket with hsocket | hsocket
    · exact h.sockets socket hsocket
    · exact List.mem_singleton.1 hsocket ▸ hm

theorem atRef_close (h : s.AtLeast m) (ref : Option ℕ) :
    ∀ socket ∈ atRef ref WebSocket.close s.sockets, m ≤ socket.effect.maxEvents :=
  forall_mem_atRef h.sockets fun socket hm => (effect_close socket).symm ▸ hm

theorem set {socket : WebSocket} (h : s.AtLeast m) (hm : m ≤ socket.effect.maxEvents) :
    ({ s with sockets := s.sockets.set i socket } : LiveEvents).AtLeast m := by
  refine ⟨fun other hother => ?_, h.timeouts⟩
  rcases List.mem_or_eq_of_mem_set hother with hother | rfl
  · exact h.sockets other hother
  · exact hm

theorem onopen (h : s.AtLeast m) : (s.onopen i effect).AtLeast m := by
  unfold LiveEvents.onopen
  split
  · exact ⟨h.atRef_close (some i), h.timeouts⟩
  · exact ⟨h.sockets, h.timeouts⟩

theorem onclose (h : s.AtLeast m) (hm : m ≤ effect.maxEvents) :
    (s.onclose effect jitter).AtLeast m := by
  unfold LiveEvents.onclose
  dsimp only
  split
  · exact ⟨h.sockets, h.timeouts⟩
  · refine ⟨h.sockets, fun timeout htimeout => ?_⟩
    rcases List.mem_append.1 htimeout with htimeout | htimeout
    · exact h.timeouts timeout htimeout
    · exact List.mem_singleton.1 htimeout ▸ hm

theorem cleanup (h : s.AtLeast m) : s.cleanup.AtLeast m := by
  unfold LiveEvents.cleanup
  split
  · exact h
  · exact ⟨h.atRef_close _, forall_mem_atRef h.timeouts fun _ hm => hm⟩

theorem runEffect {options : Options} (h : s.AtLeast m) (hm : m ≤ options.maxEvents) :
    (s.runEffect options).AtLeast m := by
  unfold LiveEvents.runEffect
  split
  · exact connect ⟨h.sockets, h.timeouts⟩ hm
  · exact h

theorem render {options : Options} (h : s.AtLeast m) (hm : m ≤ options.maxEvents) :
    (s.render options).AtLeast m := by
  have hcount : ({ s with counting := options.enabled } : LiveEvents).AtLeast m :=
    ⟨h.sockets, h.timeouts⟩
  unfold LiveEvents.render
  dsimp only
  split
  · exact hcount
  · exact runEffect ⟨hcount.cleanup.sockets, hcount.cleanup.timeouts⟩ hm

/-- A step keeps it, if what is rendered does. -/
theorem step (h : s.AtLeast m) (ha : RendersAtLeast m a)
    (ht : (machine isZero).step s a = some t) : t.AtLeast m := by
  cases a with
  | render options =>
    obtain rfl := Option.some.inj ht
    exact h.render ha
  | unmount =>
    obtain rfl := Option.some.inj ht
    exact ⟨h.cleanup.sockets, h.cleanup.timeouts⟩
  | clearEvents =>
    obtain rfl := Option.some.inj ht
    exact ⟨h.sockets, h.timeouts⟩
  | second =>
    obtain rfl := step_second ht
    exact ⟨h.sockets, h.timeouts⟩
  | opened i =>
    obtain ⟨effect, readyState, hi, -, rfl⟩ := step_opened ht
    have hm : m ≤ effect.maxEvents := h.sockets _ (List.mem_of_getElem? hi)
    exact (h.set hm).onopen
  | message i parsed =>
    obtain ⟨effect, opened, -, rfl⟩ := step_message ht
    unfold onmessage
    split
    · exact ⟨h.sockets, h.timeouts⟩
    · exact h
  | errored i =>
    rcases step_errored ht with ⟨effect, opened, -, rfl⟩ | rfl
    · exact ⟨h.atRef_close (some i), h.timeouts⟩
    · exact h
  | closed i jitter =>
    obtain ⟨effect, readyState, opened, hi, -, -, -, rfl⟩ := step_closed ht
    have hm : m ≤ effect.maxEvents := h.sockets _ (List.mem_of_getElem? hi)
    exact (h.set hm).onclose hm
  | timeout j =>
    obtain ⟨effect, delay, hj, rfl⟩ := step_timeout ht
    have hm : m ≤ effect.maxEvents := h.timeouts _ (List.mem_of_getElem? hj)
    refine connect ⟨h.sockets, fun timeout htimeout => ?_⟩ hm
    rcases List.mem_or_eq_of_mem_set htimeout with htimeout | rfl
    · exact h.timeouts timeout htimeout
    · exact hm
  | heartbeat j =>
    obtain ⟨i, -, ⟨effect, opened, -, rfl⟩ | rfl⟩ := step_heartbeat ht
    · exact ⟨h.sockets, h.timeouts⟩
    · exact h
  | frame j =>
    obtain ⟨maxEvents, -, rfl⟩ := step_frame ht
    exact ⟨h.sockets, h.timeouts⟩

end AtLeast

/-- **A step keeps the screen and its receipts together.** -/
theorem shows_step (hleast : s.AtLeast m) (h : s.screen.Shows m r)
    (ht : (machine isZero).step s a = some t) : t.screen.Shows m (r.note isZero a) := by
  have hdraw := redraw ht
  generalize t.screen = screen at hdraw
  cases hdraw with
  | clear => exact ⟨List.nil_prefix, rfl, h.total, h.recent, h.frames⟩
  | second => exact ⟨h.received, h.newest, h.total, rfl, h.frames⟩
  | @receive i parsed socket event hsocket hevent =>
    have hnote : r.note isZero (.message i parsed) =
        ⟨event :: r.sinceClear, r.total + 1, r.sinceSecond + 1⟩ := by
      rw [Receipts.note, hevent]
    rw [hnote]
    exact h.receive (hleast.sockets socket hsocket)
  | @flush j maxEvents hframe =>
    have hm : m ≤ maxEvents := h.frames _ (List.mem_of_getElem? hframe)
    refine Screen.Shows.flush ⟨h.received, h.newest, h.total, h.recent, fun frame hmem => ?_⟩ hm
    rcases List.mem_or_eq_of_mem_set hmem with hmem | rfl
    · exact h.frames frame hmem
    · exact hm
  | cancel hcleans hnote => exact (hnote r).symm ▸ h.cancel
  | keep hkeeps hnote => exact (hnote r).symm ▸ h

theorem atLeast_init : init.AtLeast m :=
  ⟨fun _ h => absurd h List.not_mem_nil, fun _ h => absurd h List.not_mem_nil⟩

/-- **What the feed has of what it received**, in every run: buffer and
screen together are what came last since they were cleared, newest first,
and are all of it up to the least bound that was ever rendered. Both counts
are exact. -/
theorem shows_run (hl : ∀ a ∈ l, RendersAtLeast m a)
    (hrun : (machine isZero).run init l = some t) : t.screen.Shows m (.of isZero l) := by
  have hkeep := Machine.simulates_run (M := machine isZero) (G := fun _ a => RendersAtLeast m a)
    (R := fun s r => s.AtLeast m ∧ s.screen.Shows m r) (f := Receipts.note isZero)
    (fun s r a t hs ha ht => ⟨hs.1.step ha ht, shows_step hs.1 hs.2 ht⟩)
    (Machine.everyStep_of_forall fun a ha _ => hl a ha) hrun
    ⟨atLeast_init, Screen.shows_empty⟩
  exact hkeep.2

/-- A page shows two events, an event and a pong come in, two frames later
another event. -/
def receivesAndShows : List LiveAction :=
  [.render ⟨none, none, 2, true⟩, .opened 0,
    .message 0 (some (.obj [("type", .str "log")])),
    .message 0 (some (.obj [("type", .str "pong")])), .frame 0,
    .message 0 (some (.obj [("type", .str "alert")]))]

theorem shows_receivesAndShows : ∃ t, (machine fun _ => false).run init receivesAndShows = some t ∧
    t.screen.Shows 2 (.of (fun _ => false) receivesAndShows) :=
  ⟨_, rfl, shows_run (by simp [receivesAndShows, RendersAtLeast]) rfl⟩

end LiveEvents

/-! ## The frame that was cancelled -/

namespace Screen

variable {s : Screen} {event : Json} {m j maxEvents : ℕ}

/-- Frame `j` will come. -/
def Coming (s : Screen) (j : ℕ) : Prop := ∃ maxEvents, s.frames[j]? = some ⟨maxEvents, true⟩

/-- **The feed is alive**: the frame whose handle is kept will come. -/
def Sighted (s : Screen) : Prop := ∀ j, s.animationFrameRef = some j → s.Coming j

/-- What is kept of the frames: only the one whose handle is kept can come,
and where something waits for a frame there is a handle. -/
structure Framed (s : Screen) : Prop where
  sole : ∀ j, s.Coming j → s.animationFrameRef = some j
  waits : s.pendingBufferRef ≠ [] → s.animationFrameRef.isSome
  lt : ∀ j, s.animationFrameRef = some j → j < s.frames.length

/-- A frame that was just requested, or one from before. -/
theorem coming_requested {frames : List AnimationFrame}
    (hframes : s.frames = frames ++ [⟨maxEvents, true⟩]) :
    s.Coming j ↔ (∃ m, frames[j]? = some ⟨m, true⟩) ∨ j = frames.length := by
  unfold Coming
  rw [hframes]
  constructor
  · rintro ⟨m, hm⟩
    rcases Nat.lt_or_ge j frames.length with hlt | hge
    · exact .inl ⟨m, by rwa [List.getElem?_append_left hlt] at hm⟩
    · have hlen := (List.getElem?_eq_some_iff.1 hm).1
      rw [List.length_append, List.length_singleton] at hlen
      exact .inr (Nat.le_antisymm (Nat.le_of_lt_succ hlen) hge)
  · rintro (⟨m, hm⟩ | rfl)
    · exact ⟨m, by rwa [List.getElem?_append_left (List.getElem?_eq_some_iff.1 hm).1]⟩
    · exact ⟨maxEvents, by rw [List.getElem?_append_right (Nat.le_refl _), Nat.sub_self]; rfl⟩

theorem Framed.receive (h : s.Framed) : (s.receive maxEvents event).Framed := by
  unfold Screen.receive scheduleBufferFlush
  dsimp only
  split
  · rename_i hsome
    exact ⟨h.sole, fun _ => hsome, h.lt⟩
  · rename_i hnone
    have hnone : s.animationFrameRef = none := Option.not_isSome_iff_eq_none.1 hnone
    refine ⟨fun j hj => ?_, fun _ => rfl, fun j hj => ?_⟩
    · rcases (coming_requested rfl).1 hj with hj | rfl
      · exact absurd (hnone.symm.trans (h.sole j hj)) (by simp)
      · rfl
    · obtain rfl := Option.some.inj hj
      show _ < (s.frames ++ [_]).length
      rw [List.length_append]
      exact Nat.lt_succ_self _

/-- A feed that is alive stays so as events come in, and one that is not
stays dark. -/
theorem sighted_receive : (s.receive maxEvents event).Sighted ↔ s.Sighted := by
  unfold Screen.receive scheduleBufferFlush
  dsimp only
  split
  · exact Iff.rfl
  · rename_i hnone
    have hnone : s.animationFrameRef = none := Option.not_isSome_iff_eq_none.1 hnone
    refine iff_of_true (fun j hj => ?_) fun j hj => ?_
    · obtain rfl := Option.some.inj hj
      exact (coming_requested rfl).2 (.inr rfl)
    · cases hnone.symm.trans hj

/-- **A cancel leaves no frame to come.** -/
theorem not_coming_cancel (h : s.Framed) : ¬ s.cancel.Coming j := by
  rintro ⟨m, hm⟩
  cases href : s.animationFrameRef with
  | none =>
    unfold cancel atRef at hm
    rw [href] at hm
    cases href.symm.trans (h.sole j ⟨m, hm⟩)
  | some i =>
    unfold cancel atRef at hm
    rw [href] at hm
    have hm : (s.frames.modify i _)[j]? = some (AnimationFrame.mk m true) := hm
    rw [List.getElem?_modify] at hm
    obtain ⟨frame, hframe, heq⟩ := Option.map_eq_some_iff.1 hm
    by_cases hij : i = j
    · rw [if_pos hij] at heq
      cases heq
    · rw [if_neg hij] at heq
      obtain rfl := heq
      exact hij (Option.some.inj (href.symm.trans (h.sole j ⟨m, hframe⟩)))

theorem Framed.cancel (h : s.Framed) : s.cancel.Framed := by
  refine ⟨fun j hj => absurd hj (not_coming_cancel h), h.waits, fun j hj => ?_⟩
  have hlen : s.cancel.frames.length = s.frames.length := by
    unfold Screen.cancel atRef
    dsimp only
    split
    · exact List.length_modify ..
    · rfl
  rw [hlen]
  exact h.lt j hj

/-- **A cancel darkens the feed exactly when a handle is kept.** -/
theorem sighted_cancel (h : s.Framed) :
    s.cancel.Sighted ↔ s.animationFrameRef = none := by
  constructor
  · intro hs
    cases href : s.animationFrameRef with
    | none => rfl
    | some j => exact absurd (hs j href) (not_coming_cancel h)
  · intro hnone j hj
    cases hnone.symm.trans hj

/-- Where a frame comes, no other was to come. -/
theorem Framed.flush (h : s.Framed) (hj : s.frames[j]? = some ⟨maxEvents, true⟩) :
    ({ s with frames := s.frames.set j ⟨maxEvents, false⟩ }.flush maxEvents).Framed := by
  have hdone : ∀ k, ¬ Coming { s with frames := s.frames.set j ⟨maxEvents, false⟩ } k := by
    rintro k ⟨m, hm⟩
    have hm : (s.frames.set j _)[k]? = some (AnimationFrame.mk m true) := hm
    rw [List.getElem?_set] at hm
    split at hm
    · split at hm
      · cases hm
      · cases hm
    · rename_i hne
      have hk := h.sole k ⟨m, hm⟩
      exact hne (Option.some.inj ((h.sole j ⟨maxEvents, hj⟩).symm.trans hk))
  unfold Screen.flush
  dsimp only
  split
  · rename_i hempty
    refine ⟨fun k hk => absurd hk (hdone k), fun hne => ?_, fun k hk => by cases hk⟩
    exact absurd (List.isEmpty_iff.1 hempty) hne
  · exact ⟨fun k hk => absurd hk (hdone k), fun hne => absurd rfl hne, fun k hk => by cases hk⟩

theorem flush_animationFrameRef : (s.flush maxEvents).animationFrameRef = none := by
  unfold flush
  dsimp only
  split <;> rfl

theorem sighted_flush : (s.flush maxEvents).Sighted := by
  intro j hj
  cases flush_animationFrameRef.symm.trans hj

theorem framed_empty : empty.Framed :=
  ⟨fun j h => (by obtain ⟨m, hm⟩ := h; cases hm), fun h => absurd rfl h, fun j h => by cases h⟩

end Screen

namespace LiveEvents

variable {isZero : String → Bool} {s t u : LiveEvents} {a : LiveAction} {l l' : List LiveAction}

theorem framed_step (h : s.screen.Framed) (ht : (machine isZero).step s a = some t) :
    t.screen.Framed := by
  have hdraw := redraw ht
  generalize t.screen = screen at hdraw
  cases hdraw with
  | clear => exact ⟨h.sole, fun hne => absurd rfl hne, h.lt⟩
  | second => exact ⟨h.sole, h.waits, h.lt⟩
  | receive hsocket hevent => exact h.receive
  | flush hframe => exact h.flush hframe
  | cancel hcleans hnote => exact h.cancel
  | keep hkeeps hnote => exact h

/-- No frame is cancelled by the action. -/
def CancelsNoFrame (s : LiveEvents) (a : LiveAction) : Prop :=
  s.CleansUp a → s.screen.animationFrameRef = none

/-- **A step keeps the feed alive exactly when it cancels no frame.** -/
theorem sighted_step_iff (hframed : s.screen.Framed) (h : s.screen.Sighted)
    (ht : (machine isZero).step s a = some t) : t.screen.Sighted ↔ s.CancelsNoFrame a := by
  have hdraw := redraw ht
  generalize t.screen = screen at hdraw
  cases hdraw with
  | clear => exact iff_of_true h fun hcleans => absurd hcleans id
  | second => exact iff_of_true h fun hcleans => absurd hcleans id
  | receive hsocket hevent =>
    exact iff_of_true (Screen.sighted_receive.2 h) fun hcleans => absurd hcleans id
  | flush hframe => exact iff_of_true Screen.sighted_flush fun hcleans => absurd hcleans id
  | cancel hcleans hnote =>
    exact (Screen.sighted_cancel hframed).trans ⟨fun hnone _ => hnone, fun hnone => hnone hcleans⟩
  | keep hkeeps hnote => exact iff_of_true h fun hcleans => absurd hcleans hkeeps

/-- **A feed that is dark stays dark**, and shows nothing it did not show. -/
theorem dark_step (hframed : s.screen.Framed) (h : ¬ s.screen.Sighted)
    (ht : (machine isZero).step s a = some t) :
    ¬ t.screen.Sighted ∧ (t.screen.events = s.screen.events ∨ t.screen.events = []) := by
  have hdraw := redraw ht
  generalize t.screen = screen at hdraw
  cases hdraw with
  | clear => exact ⟨h, .inr rfl⟩
  | second => exact ⟨h, .inl rfl⟩
  | @receive i parsed socket event hsocket hevent =>
    refine ⟨fun hs => h (Screen.sighted_receive.1 hs), .inl ?_⟩
    unfold Screen.receive Screen.scheduleBufferFlush
    split <;> rfl
  | @flush j maxEvents hframe =>
    -- a frame that comes is the one whose handle is kept
    refine absurd (fun k hk => ?_) h
    have hj := hframed.sole j ⟨maxEvents, hframe⟩
    obtain rfl : j = k := Option.some.inj (hj.symm.trans hk)
    exact ⟨maxEvents, hframe⟩
  | cancel hcleans hnote =>
    refine ⟨fun hs => h fun j hj => ?_, .inl rfl⟩
    cases ((Screen.sighted_cancel hframed).1 hs).symm.trans hj
  | keep hkeeps hnote => exact ⟨h, .inl rfl⟩

/-- So does a run. -/
theorem dark_run (hframed : s.screen.Framed) (h : ¬ s.screen.Sighted)
    (hrun : (machine isZero).run s l = some t) :
    ¬ t.screen.Sighted ∧ (t.screen.events = s.screen.events ∨ t.screen.events = []) := by
  have hkeep := Machine.run_preserves (M := machine isZero)
    (I := fun u => u.screen.Framed ∧ ¬ u.screen.Sighted ∧
      (u.screen.events = s.screen.events ∨ u.screen.events = []))
    (fun u a v hu hv => ?_) hrun ⟨hframed, h, .inl rfl⟩
  · exact hkeep.2
  · obtain ⟨hdark, hevents⟩ := dark_step hu.1 hu.2.1 hv
    refine ⟨framed_step hu.1 hv, hdark, ?_⟩
    rcases hevents with hevents | hevents
    · exact hevents ▸ hu.2.2
    · exact .inr hevents

/-- Where the feed is alive, what waits is shown by the frame that comes. -/
theorem exists_frame (hframed : s.screen.Framed) (h : s.screen.Sighted)
    (hwaits : s.screen.pendingBufferRef ≠ []) :
    ∃ j maxEvents u, (machine isZero).step s (.frame j) = some u ∧ u.screen.pendingBufferRef = [] ∧
      u.screen.events = (s.screen.pendingBufferRef.reverse ++ s.screen.events).take maxEvents := by
  obtain ⟨j, hj⟩ := Option.isSome_iff_exists.1 (hframed.waits hwaits)
  obtain ⟨maxEvents, hframe⟩ := h j hj
  have hne : s.screen.pendingBufferRef.isEmpty = false := by
    rw [← Bool.not_eq_true, List.isEmpty_iff]
    exact hwaits
  have hstep : (machine isZero).step s (.frame j) = some { s with
      screen :=
        { s.screen with frames := s.screen.frames.set j ⟨maxEvents, false⟩ }.flush maxEvents } := by
    simp only [machine, hframe]
  refine ⟨j, maxEvents, _, hstep, ?_, ?_⟩ <;>
    simp only [Screen.flush, hne, Bool.false_eq_true, if_false]

/-- **The feed goes dark exactly when its effect is cleaned up while a frame
is to come.** In every run: it is alive all along if and only if that never
happens; while it is alive, a frame is to come that shows all that waits;
and once it is dark, nothing is ever shown that was not shown before,
however often the effect runs again. -/
theorem goes_dark (hrun : (machine isZero).run init l = some t) :
    ((machine isZero).Always (·.screen.Sighted) init l ↔
      (machine isZero).EveryStep CancelsNoFrame init l) ∧
    (t.screen.Sighted → t.screen.pendingBufferRef ≠ [] →
      ∃ j maxEvents u, (machine isZero).step t (.frame j) = some u ∧
        u.screen.pendingBufferRef = [] ∧
        u.screen.events =
          (t.screen.pendingBufferRef.reverse ++ t.screen.events).take maxEvents) ∧
    (¬ t.screen.Sighted → ∀ l' u, (machine isZero).run t l' = some u →
      ¬ u.screen.Sighted ∧ (u.screen.events = t.screen.events ∨ u.screen.events = [])) := by
  have hframed : t.screen.Framed :=
    Machine.run_preserves (M := machine isZero) (I := fun s => s.screen.Framed)
      (fun s a t hs ht => framed_step hs ht) hrun Screen.framed_empty
  refine ⟨?_, exists_frame hframed, fun hdark l' u hu => dark_run hframed hdark hu⟩
  exact Machine.always_iff_everyStep (I := fun s => s.screen.Framed)
    (fun s a t hs ht => framed_step hs ht)
    (fun s a t hs h ht => sighted_step_iff hs h ht) Screen.framed_empty
    (fun j hj => by cases hj) hrun

/-- An event comes in, and the page asks for the events of a node before
the frame that would show it. -/
def narrowsBeforeFrame : List LiveAction :=
  [.render ⟨none, none, 10, true⟩, .opened 0, .message 0 (some (.obj [("type", .str "log")])),
    .render ⟨none, some "node", 10, true⟩]

/-- The page stays empty ever after. -/
theorem dark_narrowsBeforeFrame :
    ∃ t, (machine fun _ => false).run init narrowsBeforeFrame = some t ∧
      ∀ l' u, (machine fun _ => false).run t l' = some u → u.screen.events = [] := by
  have hrun : (machine fun _ => false).run init narrowsBeforeFrame = some _ := rfl
  refine ⟨_, hrun, fun l' u hu => ?_⟩
  have hdark := (goes_dark hrun).2.2 (fun h => by obtain ⟨m, hm⟩ := h 0 rfl; cases hm) l' u hu
  exact hdark.2.elim id id

end LiveEvents

end AigisZero.Frontend
