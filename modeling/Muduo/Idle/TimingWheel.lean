import Muduo.Connection.ConnState
import Muduo.Foundations.Loops
import Muduo.Foundations.Wheel

/-!
# Idle connections on a timing wheel

An echo server that shuts down connections from which nothing has come for some seconds. Each
connection has an entry, which the buckets of a circular buffer share; the last bucket gets the
entry with each message, and once a second the front bucket is overwritten. An entry that no
bucket has any longer shuts its connection down.
-/

namespace Muduo
namespace Idle

open Foundations

namespace TimingWheel

/-- An entry has the number of its connection. -/
structure EchoServer where
  connectionBuckets : List (Finset ℕ)
  state : ℕ → ConnState

namespace EchoServer

/-- The constructor; the buffer has its full size at once. -/
def init (idleSeconds : ℕ) : EchoServer := ⟨List.replicate idleSeconds ∅, fun _ => .absent⟩

variable (s : EchoServer)

/-- `connectionBuckets_.back().insert(entry)`; a buffer without capacity has no `back()`. -/
def insertEntry (conn : ℕ) : Except Fault EchoServer := do
  assertThat (s.connectionBuckets ≠ [])
  return { s with connectionBuckets := Wheel.touch s.connectionBuckets conn }

/-- `onConnection` of a new connection. -/
def connect (conn : ℕ) : Except Fault EchoServer :=
  { s with state := Function.update s.state conn .connected }.insertEntry conn

/-- `onConnection` of a connection that is down. The context is empty before the connection is
up. The entry stays in its buckets. -/
def disconnect (conn : ℕ) : Except Fault EchoServer := do
  assertThat (s.state conn ≠ .absent)
  return { s with state := Function.update s.state conn .disconnected }

/-- The weak pointer in the context can be locked as long as a bucket has the entry. -/
def onMessage (conn : ℕ) : Except Fault EchoServer := do
  assertThat (s.state conn ≠ .absent)
  if Wheel.holds s.connectionBuckets conn then s.insertEntry conn else return s

/-- `push_back` on a full buffer: the front goes away, and with it the entries that are nowhere
else. The destructor of an entry calls `shutdown`. -/
def onTimer : EchoServer :=
  if s.connectionBuckets = [] then s
  else
    { connectionBuckets := Wheel.turn s.connectionBuckets
      state := fun conn =>
        if conn ∈ Wheel.expiring s.connectionBuckets then (s.state conn).shutdown
        else s.state conn }

end EchoServer

inductive Event
  | connect (conn : ℕ)
  | message (conn : ℕ)
  | disconnect (conn : ℕ)
  | tick
  deriving DecidableEq

namespace EchoServer

variable (s : EchoServer)

def step : Event → Except Fault EchoServer
  | .connect conn => s.connect conn
  | .message conn => s.onMessage conn
  | .disconnect conn => s.disconnect conn
  | .tick => .ok s.onTimer

def Allows : Event → Prop
  | .connect conn => s.state conn = .absent
  | .message conn | .disconnect conn => (s.state conn).Up
  | .tick => True

instance : (e : Event) → Decidable (s.Allows e)
  | .connect conn => inferInstanceAs (Decidable (s.state conn = .absent))
  | .message conn | .disconnect conn => inferInstanceAs (Decidable (s.state conn).Up)
  | .tick => .isTrue trivial

def machine : Machine EchoServer Event Fault where
  Allows s e := s.Allows e
  step s e := s.step e

instance (e : Event) : Decidable (machine.Allows s e) := inferInstanceAs (Decidable (s.Allows e))

end EchoServer

/-- A connection on its own. An open one counts the seconds since its last message. -/
inductive Watch
  | absent
  | counting (seconds : ℕ)
  | shutDown
  | gone
  deriving DecidableEq

namespace Watch

def state : Watch → ConnState
  | .absent => .absent
  | .counting _ => .connected
  | .shutDown => .disconnecting
  | .gone => .disconnected

def seconds : Watch → Option ℕ
  | .counting k => some k
  | _ => none

def next (idleSeconds conn : ℕ) (w : Watch) : Event → Watch
  | .connect c => if c = conn then .counting 0 else w
  | .message c =>
    if c = conn then
      match w with
      | .counting _ => .counting 0
      | w => w
    else w
  | .disconnect c => if c = conn then .gone else w
  | .tick =>
    match w with
    | .counting k => if k + 1 < idleSeconds then .counting (k + 1) else .shutDown
    | w => w

end Watch

/-- The wheel counts for all connections. Entries of connections that are gone do not matter. -/
structure Counts (n : ℕ) (s : EchoServer) (watch : ℕ → Watch) : Prop where
  length : s.connectionBuckets.length = n
  state : ∀ conn, s.state conn = (watch conn).state
  age : ∀ conn, watch conn ≠ .gone → Wheel.age s.connectionBuckets conn = (watch conn).seconds

section Steps

variable {n : ℕ} {s : EchoServer} {watch : ℕ → Watch} {conn : ℕ}

theorem counts_init (n : ℕ) : Counts n (.init n) fun _ => .absent :=
  ⟨List.length_replicate, fun _ => rfl, fun conn _ => Wheel.age_replicate n conn⟩

theorem Counts.ne_nil (h : Counts n s watch) (hn : 0 < n) : s.connectionBuckets ≠ [] := by
  rw [← List.length_pos_iff, h.length]
  exact hn

theorem Counts.touch (h : Counts n s watch) (hn : 0 < n) (conn : ℕ) :
    Counts n ⟨Wheel.touch s.connectionBuckets conn, Function.update s.state conn .connected⟩
      (Function.update watch conn (.counting 0)) := by
  refine ⟨(Wheel.length_touch _ _).trans h.length, fun conn' => ?_, fun conn' hgone => ?_⟩
  · by_cases heq : conn' = conn
    · simp [heq, Watch.state]
    · simp [heq, h.state]
  · show Wheel.age (Wheel.touch s.connectionBuckets conn) conn' = _
    rw [Wheel.age_touch (h.ne_nil hn)]
    by_cases heq : conn' = conn
    · subst heq
      rw [if_pos rfl, Function.update_self]
      rfl
    · rw [Function.update_of_ne heq] at hgone ⊢
      rw [if_neg heq, h.age conn' hgone]

theorem next_of_ne {e : Event} {w : Watch} {c : ℕ} (hne : c ≠ conn)
    (he : e = .connect c ∨ e = .message c ∨ e = .disconnect c) : w.next n conn e = w := by
  rcases he with rfl | rfl | rfl <;> simp [Watch.next, hne]

theorem next_eq_update {e : Event}
    (he : e = .connect conn ∨ e = .message conn ∨ e = .disconnect conn) :
    (fun c => (watch c).next n c e) =
      Function.update watch conn ((watch conn).next n conn e) := by
  funext c
  by_cases hc : c = conn
  · rw [hc, Function.update_self]
  · rw [Function.update_of_ne hc, next_of_ne (Ne.symm hc) he]

theorem Counts.connect (h : Counts n s watch) (hn : 0 < n) (conn : ℕ) :
    ∃ s', s.connect conn = .ok s' ∧ Counts n s' fun c => (watch c).next n c (.connect conn) := by
  refine ⟨⟨Wheel.touch s.connectionBuckets conn, Function.update s.state conn .connected⟩, ?_, ?_⟩
  · rw [EchoServer.connect, EchoServer.insertEntry, assertThat_pos (h.ne_nil hn)]
    rfl
  · have hnext : (watch conn).next n conn (.connect conn) = .counting 0 := if_pos rfl
    rw [next_eq_update (.inl rfl), hnext]
    exact h.touch hn conn

theorem Counts.message (h : Counts n s watch) (hn : 0 < n) (hup : (s.state conn).Up) :
    ∃ s', s.onMessage conn = .ok s' ∧ Counts n s' fun c => (watch c).next n c (.message conn) := by
  have hstate := h.state conn
  rw [EchoServer.onMessage, assertThat_pos hup.ne_absent, ok_bind, next_eq_update (.inr (.inl rfl))]
  cases hwatch : watch conn with
  | counting k =>
    have hage : Wheel.age s.connectionBuckets conn = some k := by
      rw [h.age conn (by simp [hwatch]), hwatch]
      rfl
    have hholds : Wheel.holds s.connectionBuckets conn = true := by
      rw [Wheel.holds_iff_age, hage]
      rfl
    have hsame : Function.update s.state conn .connected = s.state := by
      rw [Function.update_eq_self_iff, hstate, hwatch]
      rfl
    have htouch := h.touch hn conn
    rw [hsame] at htouch
    refine ⟨⟨Wheel.touch s.connectionBuckets conn, s.state⟩, ?_, ?_⟩
    · rw [if_pos hholds, EchoServer.insertEntry, assertThat_pos (h.ne_nil hn)]
      rfl
    · rw [show (Watch.counting k).next n conn (.message conn) = .counting 0 by simp [Watch.next]]
      exact htouch
  | shutDown =>
    have hage : Wheel.age s.connectionBuckets conn = none := by
      rw [h.age conn (by simp [hwatch]), hwatch]
      rfl
    have hholds : ¬Wheel.holds s.connectionBuckets conn = true := by
      rw [Wheel.holds_iff_age, hage]
      simp
    have hnext : (Watch.shutDown).next n conn (.message conn) = .shutDown := by simp [Watch.next]
    refine ⟨s, if_neg hholds, ?_⟩
    rw [hnext, ← hwatch, Function.update_eq_self]
    exact h
  | absent =>
    rw [hstate, hwatch] at hup
    exact absurd hup (by decide)
  | gone =>
    rw [hstate, hwatch] at hup
    exact absurd hup (by decide)

theorem Counts.disconnect (h : Counts n s watch) (hup : (s.state conn).Up) :
    ∃ s', s.disconnect conn = .ok s' ∧
      Counts n s' fun c => (watch c).next n c (.disconnect conn) := by
  rw [EchoServer.disconnect, assertThat_pos hup.ne_absent]
  refine ⟨_, rfl, ?_⟩
  have hnext : (watch conn).next n conn (.disconnect conn) = .gone := if_pos rfl
  rw [next_eq_update (.inr (.inr rfl)), hnext]
  refine ⟨h.length, fun conn' => ?_, fun conn' hgone => ?_⟩
  · by_cases heq : conn' = conn
    · simp [heq, Watch.state]
    · simp [heq, h.state]
  · by_cases heq : conn' = conn
    · simp [heq] at hgone
    · rw [Function.update_of_ne heq] at hgone ⊢
      exact h.age conn' hgone

/-- The front bucket goes away. An open connection is in it and nowhere else when it has counted
to the end. -/
theorem Counts.tick (h : Counts n s watch) (hn : 0 < n) :
    Counts n s.onTimer fun c => (watch c).next n c .tick := by
  have hw := h.ne_nil hn
  rw [EchoServer.onTimer, if_neg hw]
  have hexpires : ∀ conn, watch conn ≠ .gone → (conn ∈ Wheel.expiring s.connectionBuckets ↔
      (watch conn).seconds = some (n - 1)) := fun conn hgone => by
    rw [Wheel.mem_expiring hw, h.age conn hgone, h.length]
  have hage : ∀ conn, watch conn ≠ .gone → Wheel.age (Wheel.turn s.connectionBuckets) conn =
      (watch conn).seconds.bind fun k => if k + 1 < n then some (k + 1) else none :=
    fun conn hgone => by rw [Wheel.age_turn hw, h.age conn hgone, h.length]
  refine ⟨(Wheel.length_turn hw).trans h.length, fun conn => ?_, fun conn hgone => ?_⟩
  · simp only [h.state conn]
    cases hwatch : watch conn with
    | counting k =>
      have hlt : k < n := by
        have hk := h.age conn (by simp [hwatch])
        rw [hwatch] at hk
        exact h.length ▸ Wheel.age_lt hk
      have hiff := hexpires conn (by simp [hwatch])
      rw [hwatch] at hiff
      simp only [hiff, Watch.seconds, Option.some.injEq, Watch.next]
      by_cases hlast : k = n - 1
      · rw [if_pos hlast, if_neg (by omega)]
        rfl
      · rw [if_neg hlast, if_pos (by omega)]
        rfl
    | absent => split_ifs <;> rfl
    | shutDown => split_ifs <;> rfl
    | gone => split_ifs <;> rfl
  · show Wheel.age (Wheel.turn s.connectionBuckets) conn = _
    cases hwatch : watch conn with
    | counting k =>
      rw [hage conn (by simp [hwatch]), hwatch]
      simp only [Watch.seconds, Option.bind_some, Watch.next]
      split_ifs <;> rfl
    | absent => rw [hage conn (by simp [hwatch]), hwatch]; rfl
    | shutDown => rw [hage conn (by simp [hwatch]), hwatch]; rfl
    | gone => simp [hwatch, Watch.next] at hgone

end Steps

/-- Whatever the other connections do: the server shuts a connection down when, and only when,
the timer has fired `idleSeconds` times since its last message, or since it came up. A message
that comes later does not bring it back. No assertion fails. -/
theorem wheel_shuts_down_idle (idleSeconds : ℕ) (hidle : 0 < idleSeconds) (events : List Event)
    (hp : EchoServer.machine.Permits (.init idleSeconds) events) :
    ∃ s, EchoServer.machine.run (.init idleSeconds) events = .ok s ∧
      ∀ conn, s.state conn =
        (events.foldl (fun w e => w.next idleSeconds conn e) Watch.absent).state := by
  obtain ⟨s, hs, hcounts⟩ := EchoServer.machine.run_refines (Counts idleSeconds)
    (fun watch e c => (watch c).next idleSeconds c e)
    (fun s watch e h ha => by
      cases e with
      | connect conn => exact h.connect hidle conn
      | message conn => exact h.message hidle ha
      | disconnect conn => exact h.disconnect ha
      | tick => exact ⟨_, rfl, h.tick hidle⟩)
    events (.init idleSeconds) (fun _ => .absent) (counts_init idleSeconds) hp
  refine ⟨s, hs, fun conn => ?_⟩
  rw [hcounts.state, foldl_pointwise fun c w e => Watch.next idleSeconds c w e]

/-- Two seconds. The first connection sends something in the second one. -/
theorem wheel_shuts_down_idle_second :
    ∃ s, EchoServer.machine.run (.init 2) [.connect 1, .connect 2, .tick, .message 1, .tick] =
        .ok s ∧ s.state 1 = .connected ∧ s.state 2 = .disconnecting := by
  obtain ⟨s, hs, hstate⟩ := wheel_shuts_down_idle 2 (by decide)
    [.connect 1, .connect 2, .tick, .message 1, .tick] (by decide)
  exact ⟨s, hs, hstate 1, hstate 2⟩

end TimingWheel
end Idle
end Muduo
