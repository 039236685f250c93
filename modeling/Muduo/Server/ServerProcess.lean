import Muduo.Connection.Destroying
import Muduo.Server.TcpServer

/-!
# A server and the threads of its loops

When `~TcpServer` has been through `connections_`, the members of the server are destroyed, and
with `threadPool_` the threads of the loops: each loop is told to quit and its thread is joined,
one after the other. A loop looks at `quit_` between two rounds. In a round it handles events and
then calls the functors that it has found in its queue at one moment. What is queued later waits
for the next round, and is never called when there is none.

All loops are in their rounds from the start, and nobody else tells them to quit. Functors of a
loop that was left stay in its queue here, while the source deletes them.
-/

namespace Muduo

open Foundations

/-- The thread of a loop polls and handles events, or calls the functors that it has taken, or is
behind its last round. -/
inductive ThreadPhase where
  | handling
  | calling (functors : ℕ)
  | left
  deriving DecidableEq, Repr

structure ServerProcess (n : ℕ) where
  server : TcpServer n
  phase : Fin (n + 1) → ThreadPhase
  quit : Fin (n + 1) → Bool

inductive ProcessStep (n : ℕ) where
  | server (a : ServerStep n)
  /-- `doPendingFunctors` takes the functors of the queue -/
  | swap (k : Fin (n + 1))
  /-- a round ends, and `loop` looks at `quit_` -/
  | turn (k : Fin (n + 1))
  /-- `quit` in `~EventLoopThread` -/
  | quit (k : Fin (n + 1))

namespace TcpServer

variable {n : ℕ} (w : TcpServer n)

/-- The connection whose `connectDestroyed` is run by a step, with the calls of its callback. -/
def destroys : ServerStep n → Option (ℕ × List (Call WriteAnswer))
  | .runFunctor k _ onCallback =>
    match w.queue k with
    | .connection i .connectDestroyed :: _ => some (i, onCallback)
    | _ => none
  | .destroyConnection onDown =>
    match w.destroying with
    | some (i :: _) =>
      if (w.accepted[i]?).map ServedConnection.loop = some (baseLoop n) then some (i, onDown)
      else none
    | _ => none
  | _ => none

/-- No connection fails by itself: not in its events, nor in functors other than
`connectDestroyed`. -/
def Sound (a : ServerStep n) : Prop :=
  match w.step a with
  | .error (.connection _) => (w.destroys a).isSome = true
  | _ => True

instance (a : ServerStep n) : Decidable (w.Sound a) := by
  unfold Sound
  split <;> infer_instance

end TcpServer

namespace ServerProcess

open TcpServer (baseLoop)

variable {n : ℕ}

def init (n : ℕ) (ipPort name : Bytes) (writeComplete : Bool) : ServerProcess n where
  server := .init n ipPort name writeComplete
  phase _ := .handling
  quit _ := false

variable (p : ServerProcess n)

/-- A functor that was taken has been called. -/
def spend : ServerStep n → Fin (n + 1) → ThreadPhase
  | .runFunctor k _ _ =>
    match p.phase k with
    | .calling (functors + 1) => Function.update p.phase k (.calling functors)
    | _ => p.phase
  | _ => p.phase

def step : ProcessStep n → Except ServerFault (ServerProcess n)
  | .server a => do
    let server ← p.server.step a
    return { p with server := server, phase := p.spend a }
  | .swap k =>
    .ok { p with phase := Function.update p.phase k (.calling (p.server.queue k).length) }
  | .turn k =>
    .ok { p with phase := Function.update p.phase k (if p.quit k then .left else .handling) }
  | .quit k => .ok { p with quit := Function.update p.quit k true }

/-- `~TcpServer` has returned: all threads are joined. -/
def Destroyed : Prop :=
  p.server.destroying = some [] ∧ ∀ k, k ≠ baseLoop n → p.phase k = .left

instance : Decidable p.Destroyed := inferInstanceAs (Decidable (_ ∧ _))

/-- The thread of a loop can go on. That of the base loop waits in the destructor. -/
def Runs (k : Fin (n + 1)) : Prop :=
  p.phase k ≠ .left ∧ (k = baseLoop n → p.server.destroying = none ∨ p.Destroyed)

instance (k : Fin (n + 1)) : Decidable (p.Runs k) := inferInstanceAs (Decidable (_ ∧ _))

/-- What a step of the server asks of the loop that takes it. -/
def Reaches : ServerStep n → Prop
  | .accept _ => p.Runs (baseLoop n) ∧ p.phase (baseLoop n) = .handling
  | .runFunctor k _ _ => p.Runs k ∧ p.phase k ≠ .handling ∧ p.phase k ≠ .calling 0
  | .handleEvent i _ _ =>
    ∀ s ∈ p.server.accepted[i]?, p.Runs s.loop ∧ p.phase s.loop = .handling
  | .closeCallback i | .call i _ => ∀ s ∈ p.server.accepted[i]?, p.Runs s.loop
  | .foreignCall i _ => ∀ s ∈ p.server.accepted[i]?, p.phase s.loop ≠ .left
  | .destroy | .destroyConnection _ => True

instance : (a : ServerStep n) → Decidable (p.Reaches a)
  | .accept _ => inferInstanceAs (Decidable (_ ∧ _))
  | .runFunctor _ _ _ => inferInstanceAs (Decidable (_ ∧ _))
  | .handleEvent _ _ _ => inferInstanceAs (Decidable (∀ _ ∈ _, _))
  | .closeCallback _ => inferInstanceAs (Decidable (∀ _ ∈ _, _))
  | .call _ _ => inferInstanceAs (Decidable (∀ _ ∈ _, _))
  | .foreignCall _ _ => inferInstanceAs (Decidable (∀ _ ∈ _, _))
  | .destroy => .isTrue trivial
  | .destroyConnection _ => .isTrue trivial

/-- A loop is told to quit when the threads in front of its own are joined. -/
def Allows : ProcessStep n → Prop
  | .server a => TcpServer.machine.Allows p.server a ∧ p.server.Sound a ∧ p.Reaches a
  | .swap k => p.Runs k ∧ ¬ p.server.Busy k ∧ p.phase k = .handling
  | .turn k => p.Runs k ∧ ¬ p.server.Busy k ∧ p.phase k = .calling 0
  | .quit k => k ≠ baseLoop n ∧ p.server.destroying = some [] ∧
      ∀ j, j ≠ baseLoop n → j < k → p.phase j = .left

instance : (a : ProcessStep n) → Decidable (p.Allows a)
  | .server _ => inferInstanceAs (Decidable (_ ∧ _))
  | .swap _ => inferInstanceAs (Decidable (_ ∧ _))
  | .turn _ => inferInstanceAs (Decidable (_ ∧ _))
  | .quit _ => inferInstanceAs (Decidable (_ ∧ _))

def machine : Machine (ServerProcess n) (ProcessStep n) ServerFault where
  Allows p a := p.Allows a
  step p a := p.step a

instance (a : ProcessStep n) : Decidable (machine.Allows p a) :=
  inferInstanceAs (Decidable (p.Allows a))

end ServerProcess
end Muduo
