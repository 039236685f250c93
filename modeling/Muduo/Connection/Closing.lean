import Muduo.Foundations.Guards
import Muduo.Connection.Lifecycle
import Muduo.Connection.GracefulShutdown
import Muduo.Poller.EPollPoller

/-!
# Behind the end of a connection

Users hold on to closed connections and go on calling them. Sending, shutting
down and closing ask for the state first and leave a closed connection alone. The
functors of `startRead` and `stopRead` do not: the one asks for input again, and
the other, when `reading_` is still set, updates a channel that its poller may
already have forgotten. With `epoll`, a channel that lost its interest is added again by
an update, with no events to watch for, and stays in the kernel's set until it is removed.
-/

namespace Muduo

open Foundations

def Functor.isCall : Functor → Bool
  | sendInLoop _ | shutdownInLoop | forceCloseInLoop | startReadInLoop | stopReadInLoop => true
  | _ => false

/-- What reaches a closed connection on its loop: calls, also from inside the
connection callback, functors of calls that were made on other threads, and the
owner's `connectDestroyed`. -/
inductive LateStep where
  | call (a : Call WriteAnswer)
  | runFunctor (f : Functor) (answer : WriteAnswer)
  | connectDestroyed
  deriving DecidableEq

namespace LateStep

def startsReading : LateStep → Bool
  | call .startRead | runFunctor .startReadInLoop _ => true
  | _ => false

def stopsReading : LateStep → Bool
  | call .stopRead | runFunctor .stopReadInLoop _ => true
  | _ => false

end LateStep

structure ClosedConnection where
  conn : TcpConnection
  destroyed : Bool

namespace ClosedConnection

def step (s : ClosedConnection) : LateStep → Except Fault ClosedConnection
  | .call a => do
    let conn ← s.conn.call a
    return { s with conn := conn }
  | .runFunctor f answer => do
    let conn ← s.conn.runFunctor answer [] f
    return { s with conn := conn }
  | .connectDestroyed => do
    let conn ← s.conn.connectDestroyed []
    return { conn := conn, destroyed := true }

def machine : Machine ClosedConnection LateStep Fault where
  Allows _ _ := True
  step := step

/-- The channel has no interest, and it is not registered once it was removed. -/
def Silent (s : ClosedConnection) : Prop :=
  s.conn.channel.isNoneEvent = true ∧
    (s.destroyed = true → s.conn.channel.addedToLoop = false)

end ClosedConnection

/-- What the helpers of a closed connection decide on. -/
structure LateState where
  reading : Bool
  destroyed : Bool
  deriving DecidableEq

namespace LateState

def next (t : LateState) (a : LateStep) : LateState where
  reading := if a.startsReading then true else if a.stopsReading then false else t.reading
  destroyed := t.destroyed || a = .connectDestroyed

def Orderly (t : LateState) : LateStep → Prop
  | .call _ => True
  | .runFunctor f _ => f.isCall = true
  | .connectDestroyed => t.destroyed = false

/-- Nobody restarts reading, and nobody stops it behind `connectDestroyed` for
the first time. -/
def Discreet (t : LateState) (a : LateStep) : Prop :=
  a.startsReading = false ∧ (a.stopsReading = true → t.destroyed = true → t.reading = false)

instance (t : LateState) : (a : LateStep) → Decidable (t.Orderly a)
  | .call _ => .isTrue trivial
  | .runFunctor f _ => inferInstanceAs (Decidable (f.isCall = true))
  | .connectDestroyed => inferInstanceAs (Decidable (t.destroyed = false))

instance (t : LateState) (a : LateStep) : Decidable (t.Discreet a) :=
  inferInstanceAs (Decidable (_ ∧ _))

def machine : Machine LateState LateStep Fault := Machine.ofNext Orderly next

def discreetMachine : Machine LateState LateStep Fault := Machine.ofNext Discreet next

instance (t : LateState) (a : LateStep) : Decidable (machine.Allows t a) :=
  inferInstanceAs (Decidable (t.Orderly a))

instance (t : LateState) (a : LateStep) : Decidable (discreetMachine.Allows t a) :=
  inferInstanceAs (Decidable (t.Discreet a))

end LateState

namespace TcpConnection

variable (c : TcpConnection)

/-- The connection as the connection callback finds it in `handleClose`. -/
def closing : TcpConnection :=
  { c with
    state := .kDisconnected
    channel := c.channel.disableAll
    history := c.history ++ [.connectionCallback false] }

theorem handleClose_eq {c : TcpConnection} (h : c.IsUp) (onDown : List (Call WriteAnswer)) :
    c.handleClose onDown = (do
      let c ← c.closing.calls onDown
      return c.observe .closeCallback) := by
  have hassert : c.state = .kConnected ∨ c.state = .kDisconnecting := h
  simp [handleClose, assertThat_pos hassert, closing, connected, observe, setState]

end TcpConnection

namespace ClosedConnection

def start (c : TcpConnection) : ClosedConnection where
  conn := c.closing
  destroyed := false

structure Follows (s : ClosedConnection) (t : LateState) : Prop where
  state : s.conn.state = .kDisconnected
  reading : s.conn.reading = t.reading
  destroyed : s.destroyed = t.destroyed
  silent : s.Silent

/-- Nothing that the channel depends on changes. -/
structure Spares (c c' : TcpConnection) : Prop where
  state : c'.state = c.state
  reading : c'.reading = c.reading
  channel : c'.channel = c.channel

section Steps

open TcpConnection

variable {c : TcpConnection} {s : ClosedConnection} {t : LateState}

theorem Spares.refl (c : TcpConnection) : Spares c c := ⟨rfl, rfl, rfl⟩

theorem call_spares (h : c.state = .kDisconnected) {a : Call WriteAnswer}
    (hstart : a ≠ .startRead) (hstop : a ≠ .stopRead) :
    ∃ c', c.call a = .ok c' ∧ Spares c c' := by
  cases a with
  | startRead => exact absurd rfl hstart
  | stopRead => exact absurd rfl hstop
  | send message answer => exact ⟨c, by simp [call, h], .refl c⟩
  | shutdown => exact ⟨c, by simp [call, h], .refl c⟩
  | forceClose => exact ⟨c, by simp [call, forceClose, h], .refl c⟩
  | forceCloseWithDelay => exact ⟨c, by simp [call, forceCloseWithDelay, h], .refl c⟩

theorem runFunctor_spares (h : c.state = .kDisconnected) (answer : WriteAnswer) {f : Functor}
    (hf : f.isCall = true) (hstart : f ≠ .startReadInLoop) (hstop : f ≠ .stopReadInLoop) :
    ∃ c', c.runFunctor answer [] f = .ok c' ∧ Spares c c' := by
  cases f with
  | startReadInLoop => exact absurd rfl hstart
  | stopReadInLoop => exact absurd rfl hstop
  | sendInLoop message =>
    exact ⟨_, sendInLoop_disconnected message answer h, rfl, rfl, rfl⟩
  | shutdownInLoop =>
    refine ⟨_, rfl, ?_⟩
    unfold shutdownInLoop
    split_ifs
    · exact .refl c
    · exact ⟨rfl, rfl, rfl⟩
  | forceCloseInLoop => exact ⟨c, by simp [runFunctor, forceCloseInLoop, h], .refl c⟩
  | _ => cases hf

theorem step_cases (h : s.conn.state = .kDisconnected) {a : LateStep} (ha : t.Orderly a) :
    (a.startsReading = true ∧ s.step a = .ok { s with conn := s.conn.startReadInLoop }) ∨
    (a.startsReading = false ∧ a.stopsReading = true ∧
      s.step a = .ok { s with conn := s.conn.stopReadInLoop }) ∨
    a = .connectDestroyed ∨
    (a.startsReading = false ∧ a.stopsReading = false ∧ a ≠ .connectDestroyed ∧
      ∃ c', s.step a = .ok { s with conn := c' } ∧ Spares s.conn c') := by
  cases a with
  | connectDestroyed => exact .inr (.inr (.inl rfl))
  | call a =>
    by_cases hstart : a = .startRead
    · subst hstart
      exact .inl ⟨rfl, rfl⟩
    by_cases hstop : a = .stopRead
    · subst hstop
      exact .inr (.inl ⟨rfl, rfl, rfl⟩)
    obtain ⟨c', hc', hspares⟩ := call_spares h hstart hstop
    refine .inr (.inr (.inr ⟨?_, ?_, by simp, c', by simp [step, hc'], hspares⟩))
    · cases a <;> first | rfl | exact absurd rfl hstart
    · cases a <;> first | rfl | exact absurd rfl hstop
  | runFunctor f answer =>
    by_cases hstart : f = .startReadInLoop
    · subst hstart
      exact .inl ⟨rfl, rfl⟩
    by_cases hstop : f = .stopReadInLoop
    · subst hstop
      exact .inr (.inl ⟨rfl, rfl, rfl⟩)
    obtain ⟨c', hc', hspares⟩ := runFunctor_spares h answer ha hstart hstop
    refine .inr (.inr (.inr ⟨?_, ?_, by simp, c', by simp [step, hc'], hspares⟩))
    · cases f <;> first | rfl | exact absurd rfl hstart
    · cases f <;> first | rfl | exact absurd rfl hstop

theorem not_reading_of_none (h : c.channel.isNoneEvent = true) : c.channel.isReading = false :=
  (c.channel.isNoneEvent_iff.mp h).1

theorem startReadInLoop_of_none (h : c.channel.isNoneEvent = true) :
    c.startReadInLoop.channel.isNoneEvent = false := by
  have hreading : c.startReadInLoop.channel.isReading = true := by
    simp [startReadInLoop, not_reading_of_none h, Channel.isReading_eq, Channel.enableReading,
      Channel.update, PollEvents.or, PollEvents.kReadEvent]
  by_contra hne
  have := not_reading_of_none (c := c.startReadInLoop) (by simpa using hne)
  simp [hreading] at this

theorem stopReadInLoop_of_none (h : c.channel.isNoneEvent = true) :
    c.stopReadInLoop = if c.reading then
      { c with channel := c.channel.disableReading, reading := false } else c := by
  simp [stopReadInLoop, not_reading_of_none h]

theorem connectDestroyed_closed (h : c.state = .kDisconnected)
    (hnone : c.channel.isNoneEvent = true) : c.connectDestroyed [] =
      .ok { c with channel := { c.channel with addedToLoop := false } } := by
  simp [connectDestroyed, h, removeChannel, hnone]

/-- A discreet step leaves the channel without interest, and unregistered behind
`connectDestroyed`. -/
theorem step_follows (h : s.Follows t) {a : LateStep} (ha : t.Orderly a) (hd : t.Discreet a) :
    ∃ s', s.step a = .ok s' ∧ s'.Follows (t.next a) := by
  obtain ⟨hstate, hreading, hdestroyed, hnone, hremoved⟩ := h
  rcases step_cases hstate ha with ⟨hstart, -⟩ | ⟨hstart, hstop, hs'⟩ | rfl |
      ⟨hstart, hstop, hne, c', hs', hspares⟩
  · simp [hd.1] at hstart
  · have hnot : a ≠ .connectDestroyed := by
      rintro rfl
      cases hstop
    refine ⟨_, hs', ?_⟩
    rw [stopReadInLoop_of_none hnone]
    cases hr : s.conn.reading with
    | false =>
      refine ⟨hstate, ?_, ?_, hnone, hremoved⟩
      · simp [LateState.next, hstart, hstop, hr]
      · simp [LateState.next, hnot, hdestroyed]
    | true =>
      have hregistered : t.destroyed = false := by
        by_contra hgone
        have := hd.2 hstop (by simpa using hgone)
        simp [← hreading, hr] at this
      refine ⟨hstate, ?_, ?_, s.conn.channel.isNoneEvent_disableReading hnone, ?_⟩
      · simp [LateState.next, hstart, hstop]
      · simp [LateState.next, hnot, hdestroyed]
      · simp [hdestroyed, hregistered]
  · have hs' : s.step .connectDestroyed =
        .ok ⟨{ s.conn with channel := { s.conn.channel with addedToLoop := false } }, true⟩ := by
      simp only [step, connectDestroyed_closed hstate hnone, ok_bind, pure_eq_ok]
    refine ⟨_, hs', hstate, ?_, ?_, hnone, fun _ => rfl⟩
    · simpa [LateState.next, LateStep.startsReading, LateStep.stopsReading] using hreading
    · simp [LateState.next]
  · refine ⟨_, hs', hspares.state.trans hstate, ?_, ?_, ?_⟩
    · simp [LateState.next, hstart, hstop, hspares.reading, hreading]
    · simp [LateState.next, hne, hdestroyed]
    · simpa [Silent, hspares.channel] using And.intro hnone hremoved

theorem step_not_silent (h : s.Follows t) {a : LateStep} (ha : t.Orderly a)
    (hd : ¬ t.Discreet a) {s' : ClosedConnection} (hs' : s.step a = .ok s') : ¬ s'.Silent := by
  obtain ⟨hstate, hreading, hdestroyed, hnone, -⟩ := h
  rcases step_cases hstate ha with ⟨-, hs₁⟩ | ⟨hstart, hstop, hs₁⟩ | rfl |
      ⟨hstart, hstop, -⟩
  · cases hs₁.symm.trans hs'
    rintro ⟨hnone', -⟩
    simp [startReadInLoop_of_none hnone] at hnone'
  · cases hs₁.symm.trans hs'
    obtain ⟨hgone, hr⟩ : t.destroyed = true ∧ t.reading = true := by
      simpa [LateState.Discreet, hstart, hstop] using hd
    rintro ⟨-, hremoved⟩
    have hback := hremoved (hdestroyed.trans hgone)
    simp [stopReadInLoop_of_none hnone, hreading, hr, Channel.disableReading, Channel.update]
      at hback
  · exact absurd ⟨rfl, by simp [LateStep.stopsReading]⟩ hd
  · exact absurd ⟨hstart, by simp [hstop]⟩ hd

end Steps

/-- Behind every step the closed connection is silent, and `Channel::remove` finds
it so, exactly if nobody restarts reading and nobody stops it for the first time
behind `connectDestroyed`. -/
theorem stays_closed_iff_discreet (c : TcpConnection) (steps : List LateStep)
    (horderly : LateState.machine.Permits ⟨c.reading, false⟩ steps) :
    (∀ done, done <+: steps → ∃ s, machine.run (start c) done = .ok s ∧ s.Silent) ↔
      LateState.discreetMachine.Permits ⟨c.reading, false⟩ steps := by
  have hgood : ∀ (s : ClosedConnection) (t : LateState), s.Follows t → s.Silent := by
    intro s t h
    exact h.silent
  have hcalm : ∀ (s : ClosedConnection) (t : LateState) (a : LateStep), s.Follows t →
      t.Orderly a → t.Discreet a → ∃ s', machine.step s a = .ok s' ∧ s'.Follows (t.next a) := by
    intro s t a h ha hd
    exact step_follows h ha hd
  have hrash : ∀ (s : ClosedConnection) (t : LateState) (a : LateStep) (s' : ClosedConnection),
      s.Follows t → t.Orderly a → ¬ t.Discreet a → machine.step s a = .ok s' → ¬ s'.Silent := by
    intro s t a s' h ha hd hs'
    exact step_not_silent h ha hd hs'
  have hstart : (start c).Follows ⟨c.reading, false⟩ :=
    ⟨rfl, rfl, rfl, c.channel.isNoneEvent_disableAll, by simp [start]⟩
  exact machine.holds_at_prefixes_iff hgood hcalm hrash steps (start c) _ hstart horderly

/-- The connection callback sends and stops reading, as a user who has not noticed
the end; the owner destroys the connection, and the user closes it once more. -/
def discreetSteps : List LateStep :=
  [.call (.send [1] (.took 1)), .call .stopRead, .runFunctor (.sendInLoop [2]) (.took 1),
    .connectDestroyed, .call .stopRead, .call .forceClose, .runFunctor .forceCloseInLoop (.took 0)]

theorem stays_closed_discreet :
    LateState.machine.Permits ⟨true, false⟩ discreetSteps ∧
      LateState.discreetMachine.Permits ⟨true, false⟩ discreetSteps ∧
      ∀ done, done <+: discreetSteps →
        ∃ s, machine.run (start (.init true true 4)) done = .ok s ∧ s.Silent := by
  have horderly : LateState.machine.Permits ⟨true, false⟩ discreetSteps := by decide +kernel
  have hdiscreet : LateState.discreetMachine.Permits ⟨true, false⟩ discreetSteps := by
    decide +kernel
  exact ⟨horderly, hdiscreet,
    (stays_closed_iff_discreet (.init true true 4) discreetSteps horderly).mpr hdiscreet⟩

/-- Reading is restarted from the connection callback, and the assertion in
`Channel::remove` fails. Or it is stopped behind `connectDestroyed`, and the
channel is registered once more. -/
theorem comes_back_to_the_poller :
    (LateState.machine.Permits ⟨true, false⟩ [.call .startRead, .connectDestroyed] ∧
      (.init true true 4 : TcpConnection).connectEstablished [] =
        .ok (.established true true 4) ∧
      machine.run (start (.established true true 4)) [.call .startRead, .connectDestroyed] =
        .error .assertion) ∧
    LateState.machine.Permits ⟨true, false⟩ [.connectDestroyed, .call .stopRead] ∧
      ∃ s, machine.run (start (.established true true 4)) [.connectDestroyed, .call .stopRead] =
        .ok s ∧ s.conn.channel.addedToLoop = true := by
  have hback : (machine.run (start (.established true true 4))
      [.connectDestroyed, .call .stopRead]).toOption.map (fun s => s.conn.channel.addedToLoop) =
        some true := by decide +kernel
  exact ⟨⟨by decide +kernel, TcpConnection.connectEstablished_init true true 4, rfl⟩,
    by decide +kernel, exists_ok_of_map hback⟩

end ClosedConnection

/-- A closed connection and the poller of its loop. -/
structure PolledConnection (ι : Type) where
  closed : ClosedConnection
  poller : EPollPoller ι

namespace PolledConnection

variable {ι : Type} [DecidableEq ι] (D : Descriptors ι) (i : ι)

def late (w : PolledConnection ι) : LateState := ⟨w.closed.conn.reading, w.closed.destroyed⟩

/-- The functor of the step calls `Channel::update`. -/
def Updates (c : TcpConnection) (a : LateStep) : Prop :=
  a.startsReading = true ∧ (c.reading = false ∨ c.channel.isReading = false) ∨
    a.stopsReading = true ∧ (c.reading = true ∨ c.channel.isReading = true)

instance (c : TcpConnection) (a : LateStep) : Decidable (Updates c a) :=
  inferInstanceAs (Decidable (_ ∨ _))

/-- What the poller is called for, with the channel as the step leaves it. -/
def poll (w : PolledConnection ι) (a : LateStep) (c : Channel) : Except Fault (EPollPoller ι) :=
  if a = .connectDestroyed then w.poller.removeChannel D i c
  else if Updates w.closed.conn a then w.poller.updateChannel D i c
  else .ok w.poller

def step (w : PolledConnection ι) (a : LateStep) : Except Fault (PolledConnection ι) := do
  let closed ← w.closed.step a
  let poller ← w.poll D i a closed.conn.channel
  return ⟨closed, poller⟩

def machine : Machine (PolledConnection ι) LateStep Fault where
  Allows w a := w.late.Orderly a ∧ w.late.Discreet a
  step := step D i

/-- What the poller holds of the channel: it was deleted by `handleClose`, is back in the
kernel's set without events behind the first `stopRead`, and is removed in the end. -/
structure Watches (reading : Bool) (w : PolledConnection ι) (t : LateState) : Prop where
  follows : w.closed.Follows t
  down : t.reading = true → reading = true
  index : w.poller.index i = if t.destroyed then EPollPoller.kNew
    else if t.reading = reading then EPollPoller.kDeleted else EPollPoller.kAdded
  entry : w.poller.channels (D.fd i) = if t.destroyed then none else some i
  kernel : w.poller.kernel (D.fd i) =
    if t.destroyed = false ∧ t.reading ≠ reading then some (PollEvents.kNoneEvent, i) else none

variable {D i} {reading : Bool} {w : PolledConnection ι} {t : LateState}

theorem step_eq {a : LateStep} {closed : ClosedConnection} {poller : EPollPoller ι}
    (hclosed : w.closed.step a = .ok closed)
    (hpoller : w.poll D i a closed.conn.channel = .ok poller) :
    w.step D i a = .ok ⟨closed, poller⟩ := by
  simp only [step, hclosed, hpoller, ok_bind, pure_eq_ok]

theorem Watches.connectDestroyed (h : w.Watches D i reading t) (hlives : t.destroyed = false)
    {c : Channel} (hnone : c.isNoneEvent = true) :
    w.poller.removeChannel D i c = .ok (w.poller.put D i EPollPoller.kNew none none) := by
  have hindex := h.index
  have hentry := h.entry
  have hkernel := h.kernel
  simp only [hlives, Bool.false_eq_true, if_false, true_and] at hindex hentry hkernel
  by_cases hsame : t.reading = reading
  · rw [if_pos hsame] at hindex
    rw [if_neg (not_not.mpr hsame)] at hkernel
    exact EPollPoller.removeChannel_deleted hindex hentry hkernel hnone
  · rw [if_neg hsame] at hindex
    rw [if_pos hsame] at hkernel
    exact EPollPoller.removeChannel_added hindex hentry hkernel hnone

/-- The first `stopRead` adds the channel to the kernel's set, with no events. -/
theorem Watches.stopRead (h : w.Watches D i reading t) (hlives : t.destroyed = false)
    (hreads : t.reading = true) {c : Channel} (hnone : c.isNoneEvent = true) :
    w.poller.updateChannel D i c = .ok (w.poller.put D i EPollPoller.kAdded (some i)
      (some (PollEvents.kNoneEvent, i))) := by
  have hindex := h.index
  have hentry := h.entry
  have hkernel := h.kernel
  have hevents : c.events = PollEvents.kNoneEvent := of_decide_eq_true hnone
  simp only [hlives, hreads, h.down hreads, Bool.false_eq_true, if_false, if_true, ne_eq,
    not_true_eq_false, and_false] at hindex hentry hkernel
  rw [EPollPoller.updateChannel_deleted hindex hentry hkernel, hevents]

/-- Only `stopRead` on a connection that is reading comes to the poller. -/
theorem reads_of_updates {s : ClosedConnection} (h : s.Follows t) {a : LateStep}
    (hd : t.Discreet a) (hupdates : Updates s.conn a) :
    t.reading = true ∧ t.destroyed = false ∧ (t.next a).reading = false := by
  have hidle : s.conn.channel.isReading = false :=
    ClosedConnection.not_reading_of_none h.silent.1
  obtain ⟨hstart, -⟩ | ⟨hstop, hreads⟩ := hupdates
  · cases hd.1.symm.trans hstart
  have hreads : t.reading = true := by
    rw [hidle, h.reading] at hreads
    simpa using hreads
  refine ⟨hreads, ?_, by simp [LateState.next, hd.1, hstop]⟩
  by_contra hgone
  cases hreads.symm.trans (hd.2 hstop (by simpa using hgone))

theorem next_reading_of_not_updates {s : ClosedConnection} (h : s.Follows t) {a : LateStep}
    (hd : t.Discreet a) (hupdates : ¬ Updates s.conn a) : (t.next a).reading = t.reading := by
  simp only [LateState.next, hd.1, Bool.false_eq_true, if_false]
  split_ifs with hstop
  · simp only [Updates, hstop, true_and, not_or] at hupdates
    rw [← h.reading]
    exact (Bool.eq_false_iff.mpr hupdates.2.1).symm
  · rfl

theorem Watches.step (h : w.Watches D i reading t) {a : LateStep} (ha : w.late.Orderly a)
    (hd : w.late.Discreet a) :
    ∃ w', w.step D i a = .ok w' ∧ w'.Watches D i reading (t.next a) := by
  have hlate : w.late = t := by
    rw [late, h.follows.reading, h.follows.destroyed]
  rw [hlate] at ha hd
  obtain ⟨closed, hclosed, hfollows⟩ := ClosedConnection.step_follows h.follows ha hd
  have hnone : closed.conn.channel.isNoneEvent = true := hfollows.silent.1
  by_cases hdestroy : a = .connectDestroyed
  · subst hdestroy
    refine ⟨⟨closed, w.poller.put D i EPollPoller.kNew none none⟩,
      step_eq hclosed (h.connectDestroyed ha hnone), hfollows, h.down, ?_, ?_, ?_⟩
    · simp [EPollPoller.put, LateState.next]
    · simp [EPollPoller.put, LateState.next]
    · simp [EPollPoller.put, LateState.next]
  have hkept : (t.next a).destroyed = t.destroyed := by simp [LateState.next, hdestroy]
  by_cases hupdates : Updates w.closed.conn a
  · obtain ⟨hreads, hlives, hnext⟩ := reads_of_updates h.follows hd hupdates
    refine ⟨⟨closed, w.poller.put D i EPollPoller.kAdded (some i)
      (some (PollEvents.kNoneEvent, i))⟩, step_eq hclosed ?_, hfollows, ?_, ?_, ?_, ?_⟩
    · rw [poll, if_neg hdestroy, if_pos hupdates, h.stopRead hlives hreads hnone]
    · simp [hnext]
    · simp [EPollPoller.put, hkept, hlives, hnext, h.down hreads]
    · simp [EPollPoller.put, hkept, hlives]
    · simp [EPollPoller.put, hkept, hlives, hnext, h.down hreads]
  · have hnext := next_reading_of_not_updates h.follows hd hupdates
    refine ⟨⟨closed, w.poller⟩, step_eq hclosed ?_, hfollows, ?_, ?_, ?_, ?_⟩
    · rw [poll, if_neg hdestroy, if_neg hupdates]
    · rw [hnext]
      exact h.down
    · rw [hkept, hnext]
      exact h.index
    · rw [hkept]
      exact h.entry
    · rw [hkept, hnext]
      exact h.kernel

theorem watches_start (c : TcpConnection) (p : EPollPoller ι) :
    Watches D i c.reading ⟨.start c, p.put D i EPollPoller.kDeleted (some i) none⟩
      ⟨c.reading, false⟩ where
  follows := ⟨rfl, rfl, rfl, c.channel.isNoneEvent_disableAll, by simp [ClosedConnection.start]⟩
  down := id
  index := by simp [EPollPoller.put]
  entry := by simp [EPollPoller.put]
  kernel := by simp [EPollPoller.put]

/-- A connection whose channel is watched is closed, and goes on as discreetly as above. No
assertion of `EPollPoller` fails. Between a `stopRead` and `connectDestroyed` the kernel watches
the descriptor, and no events are asked for; otherwise it does not watch it. -/
theorem epoll_asks_for_no_events (c : TcpConnection) {p : EPollPoller ι}
    (hslot : p.Slot D i c.channel) (hwatched : p.kernel (D.fd i) ≠ none) (steps : List LateStep) :
    ∃ q, p.updateChannel D i c.closing.channel = .ok q ∧
      ((machine D i).Permits ⟨.start c, q⟩ steps →
        ∃ w, (machine D i).run ⟨.start c, q⟩ steps = .ok w ∧
          let t := steps.foldl LateState.next ⟨c.reading, false⟩
          w.poller.kernel (D.fd i) =
            if t.destroyed = false ∧ t.reading ≠ c.reading then some (PollEvents.kNoneEvent, i)
            else none) := by
  obtain ⟨-, -, -, hnone⟩ | ⟨-, hindex, hentry, hwatch⟩ | ⟨-, -, -, -, hnone⟩ := hslot
  · exact absurd hnone hwatched
  · have hnone : c.closing.channel.isNoneEvent = true := c.channel.isNoneEvent_disableAll
    have hclosed := EPollPoller.updateChannel_added (c := c.closing.channel) hindex hentry hwatch
    rw [if_pos hnone] at hclosed
    refine ⟨_, hclosed, fun hpermits => ?_⟩
    obtain ⟨w, hw, hwatches⟩ := (machine D i).run_refines (Watches D i c.reading) LateState.next
      (fun _ _ _ hs ha => hs.step ha.1 ha.2) steps _ _ (watches_start c p) hpermits
    exact ⟨w, hw, hwatches.kernel⟩
  · exact absurd hnone hwatched

end PolledConnection
end Muduo
