import Mathlib.Data.Prod.Lex
import Muduo.Foundations.Machine
import Muduo.Foundations.OrderedSet
import Muduo.Base.Timestamp

/-!
# The timer queue of a loop

`TimerQueue` keeps its timers in two ordered sets, by expiration and by address.
Timers are objects on the heap: a pointer is an address, following one that was
freed is a fault, and a freed address may be handed out again. `handleRead` is
cut where the callbacks run, because they may call into the queue.
-/

namespace Muduo

open Foundations

/-- A `Timer*`. -/
abbrev TimerPtr := ℕ

/-- `UINTPTR_MAX`, the address of no object. -/
def uintptrMax : TimerPtr := 2 ^ 64 - 1

/-- The interval is in the whole microseconds that `addTime` makes of it; a
timer repeats when the interval it was given is positive, however short. -/
structure Timer where
  expiration : Timestamp
  interval : ℤ
  repeats : Bool
  sequence : ℤ
  interval_nonneg : repeats = true → 0 ≤ interval
  deriving DecidableEq

/-- The constructor, for an interval that is not positive. -/
def Timer.once (when : Timestamp) (sequence : ℤ) : Timer :=
  ⟨when, 0, false, sequence, by simp⟩

/-- The constructor, for a positive interval. -/
def Timer.every (when : Timestamp) (interval : ℕ) (sequence : ℤ) : Timer :=
  ⟨when, interval, true, sequence, by simp⟩

def Timer.restart (timer : Timer) (now : Timestamp) : Timer :=
  { timer with
    expiration := if timer.repeats then addTime now timer.interval else Timestamp.invalid }

theorem Timer.now_le_restart (timer : Timer) (hr : timer.repeats = true) {now : Timestamp}
    (hfits : FitsInt64 (now + timer.interval)) : now ≤ (timer.restart now).expiration := by
  simp only [restart, hr, if_true, addTime, int64_of_fits hfits]
  exact le_add_of_nonneg_right (timer.interval_nonneg hr)

theorem Timer.restart_fits (timer : Timer) (now : Timestamp) :
    FitsInt64 (timer.restart now).expiration := by
  unfold restart
  dsimp only
  split_ifs
  · exact fits_int64 _
  · decide

structure TimerId where
  timer : TimerPtr
  sequence : ℤ
  deriving DecidableEq, Repr

structure Timespec where
  sec : ℤ
  nsec : ℤ

/-- A one-shot descriptor: armed for an instant, or expired and not yet read. -/
inductive Timerfd where
  | disarmed
  | armed (deadline armedAt : Timestamp)
  | expired
  deriving DecidableEq, Repr

def Timerfd.readable (now : Timestamp) : Timerfd → Bool
  | .disarmed => false
  | .armed deadline _ => deadline ≤ now
  | .expired => true

/-- Reading takes the expirations, and fails with `EAGAIN` when there is none. -/
def readTimerfd (timerfd : Timerfd) (now : Timestamp) : Timerfd :=
  if timerfd.readable now then .disarmed else timerfd

def howMuchTimeFromNow (when now : Timestamp) : Timespec :=
  let microseconds := max (int64 (when - now)) 100
  { sec := microseconds / Timestamp.kMicroSecondsPerSecond
    nsec := microseconds % Timestamp.kMicroSecondsPerSecond * 1000 }

/-- `timerfd_settime` with a relative time, at the instant that was read. -/
def resetTimerfd (expiration now : Timestamp) : Timerfd :=
  let ts := howMuchTimeFromNow expiration now
  .armed (now + (ts.sec * Timestamp.kMicroSecondsPerSecond + ts.nsec / 1000)) now

theorem resetTimerfd_eq {expiration now : Timestamp} (h : FitsInt64 (expiration - now)) :
    resetTimerfd expiration now = .armed (max expiration (now + 100)) now := by
  have hsplit (n : ℤ) :
      n / (1000 * 1000) * (1000 * 1000) + n % (1000 * 1000) * 1000 / 1000 = n := by
    omega
  have hmax (a b : ℤ) : b + max (a - b) 100 = max a (b + 100) := by
    omega
  simp only [resetTimerfd, howMuchTimeFromNow, int64_of_fits h, Timestamp.kMicroSecondsPerSecond,
    hsplit, hmax]

abbrev Entry := Timestamp ×ₗ TimerPtr

abbrev ActiveTimer := TimerPtr ×ₗ ℤ

/-- The address in an entry of `timers_`. -/
def Entry.ptr (e : Entry) : TimerPtr := (ofLex e).2

structure TimerQueue where
  timers : OrderedSet Entry
  activeTimers : OrderedSet ActiveTimer
  callingExpiredTimers : Bool
  cancelingTimers : OrderedSet ActiveTimer
  timerfd : Timerfd
  /-- the `Timer` objects that exist -/
  heap : TimerPtr → Option Timer

namespace TimerQueue

def init : TimerQueue where
  timers := .empty
  activeTimers := .empty
  callingExpiredTimers := false
  cancelingTimers := .empty
  timerfd := .disarmed
  heap := fun _ => none

variable (q : TimerQueue)

def deref (p : TimerPtr) : Except Fault Timer :=
  match q.heap p with
  | some timer => .ok timer
  | none => .error .outOfBounds

def store (p : TimerPtr) (timer : Option Timer) : TimerQueue :=
  { q with heap := Function.update q.heap p timer }

/-- `delete` of a timer. -/
def free (p : TimerPtr) : Except Fault TimerQueue := do
  let _ ← q.deref p
  return q.store p none

/-- `assert(timers_.size() == activeTimers_.size())`. -/
def assertSizes : Except Fault Unit := assertThat (q.timers.size = q.activeTimers.size)

def isEarliest (when : Timestamp) : Bool :=
  match q.timers.first with
  | none => true
  | some e => when < (ofLex e).1

def insert (p : TimerPtr) : Except Fault (Bool × TimerQueue) := do
  q.assertSizes
  let timer ← q.deref p
  let earliestChanged := q.isEarliest timer.expiration
  let (timers, isNew) := q.timers.insert (toLex (timer.expiration, p))
  assertThat isNew
  let (activeTimers, isNew) := q.activeTimers.insert (toLex (p, timer.sequence))
  assertThat isNew
  let q := { q with timers := timers, activeTimers := activeTimers }
  q.assertSizes
  return (earliestChanged, q)

def addTimerInLoop (p : TimerPtr) (clock : Timestamp) : Except Fault TimerQueue := do
  let (earliestChanged, q) ← q.insert p
  if earliestChanged then
    let timer ← q.deref p
    return { q with timerfd := resetTimerfd timer.expiration clock }
  else return q

/-- The branch of `cancelInLoop` for a timer that is in the queue. -/
def eraseTimer (id : TimerId) : Except Fault TimerQueue := do
  let timer ← q.deref id.timer
  let (timers, n) := q.timers.erase (toLex (timer.expiration, id.timer))
  assertThat (n = 1)
  let q ← { q with timers := timers }.free id.timer
  return { q with activeTimers := (q.activeTimers.erase (toLex (id.timer, id.sequence))).1 }

def cancelInLoop (id : TimerId) : Except Fault TimerQueue := do
  q.assertSizes
  let timer : ActiveTimer := toLex (id.timer, id.sequence)
  let q ←
    if timer ∈ q.activeTimers then q.eraseTimer id
    else if q.callingExpiredTimers then
      .ok { q with cancelingTimers := (q.cancelingTimers.insert timer).1 }
    else .ok q
  q.assertSizes
  return q

/-- The loop of `getExpired` over the entries it has moved out. -/
def eraseActive : TimerQueue → List Entry → Except Fault TimerQueue
  | q, [] => .ok q
  | q, e :: es => do
    let timer ← q.deref e.ptr
    let (activeTimers, n) := q.activeTimers.erase (toLex (e.ptr, timer.sequence))
    assertThat (n = 1)
    eraseActive { q with activeTimers := activeTimers } es

def getExpired (now : Timestamp) : Except Fault (List Entry × TimerQueue) := do
  q.assertSizes
  let sentry : Entry := toLex (now, uintptrMax)
  let expired := q.timers.below sentry
  let q := { q with timers := q.timers.onwards sentry }
  assertThat (q.isEarliest now)
  let q ← q.eraseActive expired
  q.assertSizes
  return (expired, q)

/-- `handleRead` up to its first callback. The descriptor is read after the
clock, at `readAt`. -/
def beginHandleRead (now readAt : Timestamp) : Except Fault (List Entry × TimerQueue) := do
  let (expired, q) ← { q with timerfd := readTimerfd q.timerfd readAt }.getExpired now
  return (expired, { q with callingExpiredTimers := true, cancelingTimers := .empty })

/-- The loop of `reset`: repeating timers go back, unless they were cancelled. -/
def resetEntries (now : Timestamp) : TimerQueue → List Entry → Except Fault TimerQueue
  | q, [] => .ok q
  | q, e :: es => do
    let timer ← q.deref e.ptr
    if timer.repeats ∧ toLex (e.ptr, timer.sequence) ∉ q.cancelingTimers then
      let (_, q) ← (q.store e.ptr (timer.restart now)).insert e.ptr
      resetEntries now q es
    else
      let q ← q.free e.ptr
      resetEntries now q es

/-- The expiration of the first timer; an invalid time when there is none. -/
def nextExpire : Except Fault Timestamp :=
  match q.timers.first with
  | none => .ok Timestamp.invalid
  | some e => do
    let timer ← q.deref e.ptr
    return timer.expiration

def reset (expired : List Entry) (now clock : Timestamp) : Except Fault TimerQueue := do
  let q ← resetEntries now q expired
  let nextExpire ← q.nextExpire
  return if Timestamp.valid nextExpire then
    { q with timerfd := resetTimerfd nextExpire clock }
  else q

/-- `handleRead` behind its last callback. -/
def endHandleRead (expired : List Entry) (now clock : Timestamp) : Except Fault TimerQueue :=
  { q with callingExpiredTimers := false }.reset expired now clock

end TimerQueue

/-- A `handleRead` that has not returned: the timers it took out, and those whose
callbacks have not begun. -/
structure Batch where
  now : Timestamp
  expired : List Entry
  rest : List Entry

structure TimerLoop where
  queue : TimerQueue
  /-- timers that exist and whose `addTimerInLoop` is still to run -/
  created : List TimerPtr
  /-- `s_numCreated_`, which the loops share -/
  numCreated : ℤ
  batch : Option Batch
  /-- the callbacks that were run -/
  ran : List TimerId
  /-- the last reading of the clock -/
  clock : Timestamp

inductive TimerStep where
  | newTimer (p : TimerPtr) (timer : Timer)
  | addTimerInLoop (p : TimerPtr) (clock : Timestamp)
  | cancelInLoop (id : TimerId)
  | beginHandleRead (now readAt : Timestamp)
  | runCallback
  | endHandleRead (clock : Timestamp)
  /-- the descriptor expires, be it ahead of its time -/
  | expire

namespace TimerLoop

def init (clock : Timestamp) : TimerLoop where
  queue := .init
  created := []
  numCreated := 0
  batch := none
  ran := []
  clock := clock

variable (w : TimerLoop)

/-- The queue may be called: from outside `handleRead`, or from a callback. -/
def Callable : Prop :=
  match w.batch with
  | none => True
  | some b => b.rest.length < b.expired.length

/-- The next callback of the batch. -/
def runCallback : Except Fault TimerLoop :=
  match w.batch with
  | some ⟨now, expired, e :: rest⟩ => do
    let timer ← w.queue.deref e.ptr
    return { w with
      batch := some ⟨now, expired, rest⟩
      ran := w.ran ++ [⟨e.ptr, timer.sequence⟩] }
  | _ => .ok w

def step : TimerStep → Except Fault TimerLoop
  | .newTimer p timer => .ok { w with
      queue := w.queue.store p timer
      created := p :: w.created
      numCreated := timer.sequence }
  | .addTimerInLoop p clock => do
    let queue ← w.queue.addTimerInLoop p clock
    return { w with queue := queue, created := w.created.erase p, clock := clock }
  | .cancelInLoop id => do
    let queue ← w.queue.cancelInLoop id
    return { w with queue := queue }
  | .beginHandleRead now readAt => do
    let (expired, queue) ← w.queue.beginHandleRead now readAt
    return { w with queue := queue, batch := some ⟨now, expired, expired⟩, clock := readAt }
  | .runCallback => w.runCallback
  | .endHandleRead clock =>
    match w.batch with
    | none => .ok w
    | some b => do
      let queue ← w.queue.endHandleRead b.expired b.now clock
      return { w with queue := queue, batch := none, clock := clock }
  | .expire => .ok { w with queue := { w.queue with timerfd := .expired } }

/-- What can happen next. `new` returns an address that is not in use, sequence
numbers only grow, and a timer is added once. -/
def Allows : TimerStep → Prop
  | .newTimer p timer => w.queue.heap p = none ∧ p < uintptrMax ∧ w.numCreated < timer.sequence
  | .addTimerInLoop p _ => w.Callable ∧ p ∈ w.created
  | .cancelInLoop _ => w.Callable
  | .beginHandleRead _ _ => w.batch.isNone
  | .runCallback => ∃ b ∈ w.batch, b.rest ≠ []
  | .endHandleRead _ => ∃ b ∈ w.batch, b.rest = []
  | .expire => w.queue.timerfd ≠ .disarmed

instance : Decidable w.Callable := by
  unfold Callable
  split <;> infer_instance

instance (a : TimerStep) : Decidable (w.Allows a) := by
  cases a <;> unfold Allows <;> infer_instance

end TimerLoop
end Muduo
