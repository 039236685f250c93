import Mathlib.Tactic

/-!
# Channels

A channel is the interest that one descriptor has registered with the poller.
The masks of `poll(2)` are records of their bits. Only reading and writing are
ever asked for, and `POLLIN` always together with `POLLPRI`; the structure keeps
that shape, since the order in which callbacks run depends on it.
-/

namespace Muduo

/-- The bits of an event mask. -/
structure PollEvents where
  pollIn : Bool := false
  pollPri : Bool := false
  pollOut : Bool := false
  pollErr : Bool := false
  pollHup : Bool := false
  pollNval : Bool := false
  pollRdHup : Bool := false
  deriving DecidableEq, Repr

namespace PollEvents

def kNoneEvent : PollEvents := {}

def kReadEvent : PollEvents := { pollIn := true, pollPri := true }

def kWriteEvent : PollEvents := { pollOut := true }

/-- Bitwise `a | b`. -/
def or (a b : PollEvents) : PollEvents where
  pollIn := a.pollIn || b.pollIn
  pollPri := a.pollPri || b.pollPri
  pollOut := a.pollOut || b.pollOut
  pollErr := a.pollErr || b.pollErr
  pollHup := a.pollHup || b.pollHup
  pollNval := a.pollNval || b.pollNval
  pollRdHup := a.pollRdHup || b.pollRdHup

/-- Bitwise `a & ~b`. -/
def without (a b : PollEvents) : PollEvents where
  pollIn := a.pollIn && !b.pollIn
  pollPri := a.pollPri && !b.pollPri
  pollOut := a.pollOut && !b.pollOut
  pollErr := a.pollErr && !b.pollErr
  pollHup := a.pollHup && !b.pollHup
  pollNval := a.pollNval && !b.pollNval
  pollRdHup := a.pollRdHup && !b.pollRdHup

/-- `a & b` is not zero. -/
def meets (a b : PollEvents) : Bool :=
  (a.pollIn && b.pollIn) || (a.pollPri && b.pollPri) || (a.pollOut && b.pollOut) ||
    (a.pollErr && b.pollErr) || (a.pollHup && b.pollHup) || (a.pollNval && b.pollNval) ||
    (a.pollRdHup && b.pollRdHup)

/-- The masks that registering for reading and for writing can produce. -/
def IsInterest (e : PollEvents) : Prop :=
  e.pollPri = e.pollIn ∧ e.pollErr = false ∧ e.pollHup = false ∧ e.pollNval = false ∧
    e.pollRdHup = false

instance (e : PollEvents) : Decidable e.IsInterest := inferInstanceAs (Decidable (_ ∧ _))

end PollEvents

open PollEvents

structure Channel where
  events : PollEvents
  addedToLoop : Bool
  shape : events.IsInterest
  deriving DecidableEq

/-- The callbacks a channel holds for its owner. -/
inductive ChannelCallback where
  | close
  | error
  | read
  | write
  deriving DecidableEq, Repr

namespace Channel

def init : Channel where
  events := kNoneEvent
  addedToLoop := false
  shape := by decide

variable (c : Channel)

def isNoneEvent : Bool := c.events = kNoneEvent

def isWriting : Bool := c.events.meets kWriteEvent

def isReading : Bool := c.events.meets kReadEvent

/-- Every change of interest is passed on to the poller by `update()`. -/
def update (events : PollEvents) (shape : events.IsInterest) : Channel where
  events := events
  addedToLoop := true
  shape := shape

def enableReading : Channel :=
  update (c.events.or kReadEvent) (by
    obtain ⟨-, h⟩ := c.shape
    simpa [IsInterest, PollEvents.or, kReadEvent] using h)

def disableReading : Channel :=
  update (c.events.without kReadEvent) (by
    obtain ⟨-, h⟩ := c.shape
    simpa [IsInterest, without, kReadEvent] using h)

def enableWriting : Channel :=
  update (c.events.or kWriteEvent) (by
    simpa [IsInterest, PollEvents.or, kWriteEvent] using c.shape)

def disableWriting : Channel :=
  update (c.events.without kWriteEvent) (by
    simpa [IsInterest, without, kWriteEvent] using c.shape)

def disableAll (_c : Channel) : Channel := update kNoneEvent (by decide)

/-- The callbacks that `handleEventWithGuard` runs, in their order. The mask
that the poller reported does not change while they run. -/
def handleEventWithGuard (revents : PollEvents) : List ChannelCallback :=
  (if revents.pollHup && !revents.pollIn then [.close] else []) ++
  (if revents.pollErr || revents.pollNval then [.error] else []) ++
  (if revents.pollIn || revents.pollPri || revents.pollRdHup then [.read] else []) ++
  (if revents.pollOut then [.write] else [])

theorem isWriting_eq : c.isWriting = c.events.pollOut := by
  simp [isWriting, meets, kWriteEvent]

theorem isReading_eq : c.isReading = c.events.pollIn := by
  simp [isReading, meets, kReadEvent, c.shape.1]

/-- Interest is registered for reading, for writing, for both or for neither. -/
theorem isNoneEvent_iff : c.isNoneEvent = true ↔ c.isReading = false ∧ c.isWriting = false := by
  obtain ⟨hpri, herr, hhup, hnval, hrd⟩ := c.shape
  rw [isReading_eq, isWriting_eq, isNoneEvent, decide_eq_true_iff]
  constructor
  · intro h
    rw [h]
    exact ⟨rfl, rfl⟩
  · rintro ⟨hin, hout⟩
    cases hc : c.events with
    | mk pin ppri pout perr phup pnval prd => simp_all [kNoneEvent]

@[simp] theorem isWriting_enableReading : c.enableReading.isWriting = c.isWriting := by
  simp [isWriting_eq, enableReading, update, PollEvents.or, kReadEvent]

@[simp] theorem isWriting_disableReading : c.disableReading.isWriting = c.isWriting := by
  simp [isWriting_eq, disableReading, update, without, kReadEvent]

@[simp] theorem isWriting_enableWriting : c.enableWriting.isWriting = true := by
  simp [isWriting_eq, enableWriting, update, PollEvents.or, kWriteEvent]

@[simp] theorem isWriting_disableWriting : c.disableWriting.isWriting = false := by
  simp [isWriting_eq, disableWriting, update, without, kWriteEvent]

@[simp] theorem isReading_enableReading : c.enableReading.isReading = true := by
  simp [isReading_eq, enableReading, update, PollEvents.or, kReadEvent]

@[simp] theorem isReading_enableWriting : c.enableWriting.isReading = c.isReading := by
  simp [isReading_eq, enableWriting, update, PollEvents.or, kWriteEvent]

@[simp] theorem isReading_disableWriting : c.disableWriting.isReading = c.isReading := by
  simp [isReading_eq, disableWriting, update, without, kWriteEvent]

@[simp] theorem isReading_disableReading : c.disableReading.isReading = false := by
  simp [isReading_eq, disableReading, update, without, kReadEvent]

@[simp] theorem isReading_disableAll : c.disableAll.isReading = false := rfl

@[simp] theorem isWriting_disableAll : c.disableAll.isWriting = false := rfl

@[simp] theorem isNoneEvent_disableAll : c.disableAll.isNoneEvent = true := rfl

theorem isNoneEvent_disableReading (h : c.isNoneEvent = true) :
    c.disableReading.isNoneEvent = true := by
  rw [isNoneEvent, decide_eq_true_iff] at h
  simp [isNoneEvent, disableReading, update, h]
  rfl

/-- When a hang-up is reported without input, and the interest behind the
report asked for input to be reported with it, nothing is read after the close. -/
theorem not_read_of_close {interest revents : PollEvents} (hi : interest.IsInterest)
    (hpri : revents.pollPri = true → interest.pollPri = true)
    (hrd : revents.pollRdHup = true → interest.pollRdHup = true)
    (hhup : revents.pollHup = true → interest.pollIn = true → revents.pollIn = true)
    (h : (revents.pollHup && !revents.pollIn) = true) :
    (revents.pollIn || revents.pollPri || revents.pollRdHup) = false := by
  simp only [Bool.and_eq_true, Bool.not_eq_true'] at h
  have hin : interest.pollIn = false := by
    by_contra hne
    have := hhup h.1 (by simpa using hne)
    simp [h.2] at this
  have hp : revents.pollPri = false := by
    by_contra hne
    have := hpri (by simpa using hne)
    simp [hi.1, hin] at this
  have hr : revents.pollRdHup = false := by
    by_contra hne
    have := hrd (by simpa using hne)
    simp [hi.2.2.2.2] at this
  simp [h.2, hp, hr]

end Channel
end Muduo
