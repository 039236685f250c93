import Mathlib.Tactic

/-!
# Connections as their users see them

A server that is built on `TcpServer` learns of a connection when it is up, may shut it down,
and is told when it is down.
-/

namespace Muduo

inductive ConnState
  | absent
  | connected
  | disconnecting
  | disconnected
  deriving DecidableEq, Repr

namespace ConnState

/-- `shutdown`. -/
def shutdown : ConnState → ConnState
  | .connected => .disconnecting
  | state => state

theorem shutdown_shutdown (state : ConnState) : state.shutdown.shutdown = state.shutdown := by
  cases state <;> rfl

/-- The connection is up: what the peer sends still arrives. -/
def Up (state : ConnState) : Prop := state = .connected ∨ state = .disconnecting

instance (state : ConnState) : Decidable state.Up := inferInstanceAs (Decidable (_ ∨ _))

theorem up_shutdown {state : ConnState} : state.shutdown.Up ↔ state.Up := by
  cases state <;> decide

theorem Up.ne_absent {state : ConnState} (h : state.Up) : state ≠ .absent := by
  rintro rfl
  exact absurd h (by decide)

end ConnState
end Muduo
