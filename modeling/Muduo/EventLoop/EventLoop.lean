import Muduo.Foundations.Machine

/-!
# The event loop and its functor queue

One thread runs `loop()`. It polls, runs the handlers of the active channels, and
then the functors that were queued, by swapping the queue out under the mutex and
running what it got without it. Functors are queued by any thread at any time: a
push under the mutex, and behind it, as a step of its own, the write that wakes
the loop up. The loop's own thread queues from handlers and from functors, that
is, while the queue is being run.

The program of the loop's thread is `advance`; the kernel decides which channels
are active. Handlers and functors are user code: what they do to the loop are the
calls that the loop's thread makes while it is inside them.
-/

namespace Muduo

open Foundations

/-- The channel of `wakeupFd_`, whose handler is `handleRead`, or any other. -/
inductive ActiveChannel where
  | wakeup
  | other
  deriving DecidableEq, Repr

/-- Where the loop's thread is. -/
inductive LoopPhase (F : Type) where
  | outside
  /-- at `while (!quit_)` -/
  | atWhile
  | aboutToPoll
  | polling
  /-- between two handlers, with the channels still to be handled -/
  | handling (rest : List ActiveChannel)
  | inHandler (rest : List ActiveChannel)
  /-- in `doPendingFunctors`, before the swap -/
  | swapping
  /-- between two functors, with the rest of the batch -/
  | calling (rest : List F)
  | inFunctor (rest : List F)

namespace LoopPhase

variable {F : Type}

def isPolling : LoopPhase F → Bool
  | polling => true
  | _ => false

def inUserCode : LoopPhase F → Bool
  | outside | inHandler _ | inFunctor _ => true
  | _ => false

/-- The functors of the batch that have not been run yet. -/
def batch : LoopPhase F → List F
  | calling rest | inFunctor rest => rest
  | _ => []

end LoopPhase

/-- A thread inside a call that ends with `wakeup()`, or outside such a call. -/
inductive CallerPhase where
  | idle
  | pushed
  | quitting
  deriving DecidableEq, Repr

/-- `F` are the functors, `T` the threads other than the loop's, which is `none`. -/
structure EventLoop (F T : Type) where
  looping : Bool
  quit : Bool
  callingPendingFunctors : Bool
  pendingFunctors : List F
  /-- the counter that the kernel keeps for `wakeupFd_` -/
  wakeupCounter : ℕ
  phase : LoopPhase F
  caller : Option T → CallerPhase
  /-- the functors that were taken from the queue and called -/
  executed : List F

inductive LoopStep (F T : Type) where
  /-- the loop's thread goes on; `active` is the poller's answer, if it waits for one -/
  | advance (active : List ActiveChannel)
  | queueInLoop (thread : Option T) (f : F)
  | runInLoop (thread : Option T) (f : F)
  | quit (thread : Option T)
  | wakeup (thread : Option T)

/-- The functor that a step pushes under the mutex. -/
def LoopStep.pushed {F T : Type} : LoopStep F T → Option F
  | .queueInLoop _ f => some f
  | .runInLoop (some _) f => some f
  | _ => none

namespace EventLoop

variable {F T : Type}

def init : EventLoop F T where
  looping := false
  quit := false
  callingPendingFunctors := false
  pendingFunctors := []
  wakeupCounter := 0
  phase := .outside
  caller _ := .idle
  executed := []

/-- The largest value of an `eventfd` counter. A write that would pass it fails,
since the descriptor does not block. -/
def maxCounter : ℕ := 2 ^ 64 - 2

variable (s : EventLoop F T)

/-- Reading an `eventfd` takes the whole counter; reading a zero fails. -/
def handleRead : EventLoop F T := { s with wakeupCounter := 0 }

/-- The program of the loop's thread: `loop()` and `doPendingFunctors()`. -/
def advance (active : List ActiveChannel) : Except Fault (EventLoop F T) :=
  match s.phase with
  | .outside => do
    assertThat (s.looping = false)
    return { s with looping := true, quit := false, phase := .atWhile }
  | .atWhile =>
    if s.quit then .ok { s with looping := false, phase := .outside }
    else .ok { s with phase := .aboutToPoll }
  | .aboutToPoll => .ok { s with phase := .polling }
  | .polling => .ok { s with phase := .handling active }
  | .handling (.wakeup :: rest) => .ok { s.handleRead with phase := .handling rest }
  | .handling (.other :: rest) => .ok { s with phase := .inHandler rest }
  | .inHandler rest => .ok { s with phase := .handling rest }
  | .handling [] => .ok { s with callingPendingFunctors := true, phase := .swapping }
  | .swapping => .ok { s with pendingFunctors := [], phase := .calling s.pendingFunctors }
  | .calling (f :: rest) =>
    .ok { s with executed := s.executed ++ [f], phase := .inFunctor rest }
  | .inFunctor rest => .ok { s with phase := .calling rest }
  | .calling [] => .ok { s with callingPendingFunctors := false, phase := .atWhile }

section Threads

variable [DecidableEq T]

/-- The push of `queueInLoop`, and its decision to call `wakeup()`. -/
def queueInLoop (thread : Option T) (f : F) : EventLoop F T :=
  { s with
    pendingFunctors := s.pendingFunctors ++ [f]
    caller := if thread ≠ none ∨ s.callingPendingFunctors = true then
        Function.update s.caller thread .pushed
      else s.caller }

/-- On the loop's thread the functor is called at once: the user code that makes
the call goes on with the functor's. -/
def runInLoop (thread : Option T) (f : F) : EventLoop F T :=
  if thread = none then s else s.queueInLoop thread f

def quitLoop (thread : Option T) : EventLoop F T :=
  { s with
    quit := true
    caller := if thread ≠ none then Function.update s.caller thread .quitting else s.caller }

def wakeup (thread : Option T) : EventLoop F T :=
  { s with
    wakeupCounter := if s.wakeupCounter < maxCounter then s.wakeupCounter + 1 else s.wakeupCounter
    caller := Function.update s.caller thread .idle }

def step : LoopStep F T → Except Fault (EventLoop F T)
  | .advance active => s.advance active
  | .queueInLoop thread f => .ok (s.queueInLoop thread f)
  | .runInLoop thread f => .ok (s.runInLoop thread f)
  | .quit thread => .ok (s.quitLoop thread)
  | .wakeup thread => .ok (s.wakeup thread)

end Threads

/-- A thread makes one call at a time, and the loop's thread makes its calls in
user code. -/
def MayCall (thread : Option T) : Prop :=
  s.caller thread = .idle ∧ (thread = none → s.phase.inUserCode = true)

def Allows : LoopStep F T → Prop
  | .advance active => s.caller none = .idle ∧
    -- the kernel reports `wakeupFd_` only when there is something to read
    (s.phase.isPolling = true → ActiveChannel.wakeup ∈ active → 0 < s.wakeupCounter)
  | .queueInLoop thread _ | .runInLoop thread _ | .quit thread => s.MayCall thread
  | .wakeup thread => s.caller thread ≠ .idle

instance [DecidableEq T] (thread : Option T) : Decidable (s.MayCall thread) :=
  inferInstanceAs (Decidable (_ ∧ _))

instance [DecidableEq T] : (a : LoopStep F T) → Decidable (s.Allows a)
  | .advance _ => inferInstanceAs (Decidable (_ ∧ _))
  | .queueInLoop thread _ | .runInLoop thread _ | .quit thread =>
    inferInstanceAs (Decidable (s.MayCall thread))
  | .wakeup _ => inferInstanceAs (Decidable (_ ≠ _))

/-- The functors that went through the queue and those that are in it. -/
def functors : List F := s.executed ++ s.phase.batch ++ s.pendingFunctors

/-- `looping_` is set while the thread is inside `loop()`. -/
def Marked : Prop := s.phase = .outside → s.looping = false

section Fifo

variable {s}

/-- A step of the loop's thread moves functors from the queue to the batch and
from the batch to the executed ones, and loses none. -/
theorem advance_functors (h : s.Marked) (active : List ActiveChannel) :
    ∃ s', s.advance active = .ok s' ∧ s'.functors = s.functors ∧ s'.Marked := by
  cases hphase : s.phase with
  | outside =>
    simp [advance, hphase, h hphase, functors, Marked, LoopPhase.batch]
  | atWhile =>
    cases hquit : s.quit <;>
      simp [advance, hphase, hquit, functors, Marked, LoopPhase.batch]
  | aboutToPoll => simp [advance, hphase, functors, Marked, LoopPhase.batch]
  | polling => simp [advance, hphase, functors, Marked, LoopPhase.batch]
  | handling rest =>
    rcases rest with - | ⟨_ | _, rest⟩ <;>
      simp [advance, hphase, functors, Marked, LoopPhase.batch, handleRead]
  | inHandler rest => simp [advance, hphase, functors, Marked, LoopPhase.batch]
  | swapping => simp [advance, hphase, functors, Marked, LoopPhase.batch]
  | calling rest =>
    cases rest <;> simp [advance, hphase, functors, Marked, LoopPhase.batch]
  | inFunctor rest => simp [advance, hphase, functors, Marked, LoopPhase.batch]

variable [DecidableEq T]

theorem queueInLoop_functors (thread : Option T) (f : F) :
    (s.queueInLoop thread f).functors = s.functors ++ [f] := by
  simp [queueInLoop, functors]

theorem step_functors (h : s.Marked) (a : LoopStep F T) :
    ∃ s', s.step a = .ok s' ∧ s'.functors = s.functors ++ a.pushed.toList ∧ s'.Marked := by
  cases a with
  | advance active =>
    obtain ⟨s', hs', hfunctors, hmarked⟩ := advance_functors h active
    exact ⟨s', hs', by simp [hfunctors, LoopStep.pushed], hmarked⟩
  | queueInLoop thread f => exact ⟨_, rfl, queueInLoop_functors thread f, h⟩
  | runInLoop thread f =>
    cases thread with
    | none => exact ⟨s, rfl, by simp [LoopStep.pushed], h⟩
    | some t => exact ⟨_, rfl, queueInLoop_functors (some t) f, h⟩
  | quit thread => exact ⟨_, rfl, by simp [quitLoop, functors, LoopStep.pushed], h⟩
  | wakeup thread => exact ⟨_, rfl, by simp [wakeup, functors, LoopStep.pushed], h⟩

end Fifo

variable [DecidableEq T]

/-- All threads, interleaved in any way. -/
def machine : Machine (EventLoop F T) (LoopStep F T) Fault where
  Allows s a := s.Allows a
  step s a := s.step a

instance (a : LoopStep F T) : Decidable (machine.Allows s a) :=
  inferInstanceAs (Decidable (s.Allows a))

/-- Whatever the threads do, the functors that were called, the rest of the batch
and the queue are together all that was ever pushed, in the order of the pushes. -/
theorem functors_run_once_in_order (steps : List (LoopStep F T))
    (hp : machine.Permits init steps) :
    ∃ s, machine.run init steps = .ok s ∧
      s.executed ++ s.phase.batch ++ s.pendingFunctors = steps.filterMap LoopStep.pushed := by
  obtain ⟨s, hs, hfunctors, -⟩ := machine.run_refines
    (fun s (fs : List F) => s.functors = fs ∧ s.Marked) (fun fs a => fs ++ a.pushed.toList)
    (by
      rintro s fs a ⟨rfl, hmarked⟩ -
      exact step_functors hmarked a)
    steps (init : EventLoop F T) [] ⟨rfl, fun _ => rfl⟩ hp
  rw [List.foldl_append_eq_append, List.nil_append, ← List.flatMap_def,
    ← List.filterMap_eq_flatMap_toList] at hfunctors
  exact ⟨s, hs, hfunctors⟩

/-- Functor 1 is pushed before `loop()`, 2 from a handler, 3 from a thread that has
not yet woken the loop up, and 4 while functor 1 runs. -/
def busySteps : List (LoopStep ℕ Bool) :=
  [.queueInLoop (some true) 1, .advance [], .advance [], .wakeup (some true), .advance [],
    .advance [.wakeup, .other], .advance [], .advance [], .queueInLoop none 2,
    .runInLoop (some false) 3, .advance [], .advance [], .advance [], .advance [],
    .queueInLoop none 4, .wakeup none, .advance []]

theorem functors_run_once_in_order_busy :
    machine.Permits init busySteps ∧
      ∃ s, machine.run init busySteps = .ok s ∧
        s.executed ++ s.phase.batch ++ s.pendingFunctors =
          busySteps.filterMap LoopStep.pushed :=
  have hp : machine.Permits init busySteps := by decide +kernel
  ⟨hp, functors_run_once_in_order busySteps hp⟩

end EventLoop
end Muduo
