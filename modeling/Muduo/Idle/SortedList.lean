import Mathlib.Data.List.TakeWhile
import Muduo.Base.Timestamp
import Muduo.Connection.ConnState
import Muduo.Foundations.Loops

/-!
# Idle connections in a sorted list

The second echo server keeps its connections in one list, and moves a connection to the end when
a message has come. Once a second it walks over the list from the front, shuts down what has been
idle for too long, and stops at the first connection that has not.

A message is stamped with the time at which `poll` returned, a new connection with the time at
which it is handled. The list is sorted only up to the time that passes in between.
-/

namespace Muduo
namespace Idle

open Foundations

namespace SortedList

/-- The contexts of the connections, with the time in each `Node`; its position in the list is
that of the connection. `forceCloses` has what `forceCloseWithDelay` gave to the timer queue, and
`timeJumps` the connections for which the timer has logged a jump of the time. -/
structure EchoServer where
  connectionList : List ℕ
  lastReceiveTime : ℕ → Timestamp
  state : ℕ → ConnState
  forceCloses : List (ℕ × Timestamp)
  timeJumps : List ℕ

namespace EchoServer

variable (s : EchoServer)

/-- `onConnection` of a new connection. -/
def connect (now : Timestamp) (conn : ℕ) : EchoServer :=
  { s with
    connectionList := s.connectionList ++ [conn]
    lastReceiveTime := Function.update s.lastReceiveTime conn now
    state := Function.update s.state conn .connected }

/-- `onConnection` of a connection that is down. `erase` needs a position in the list. -/
def disconnect (conn : ℕ) : Except Fault EchoServer := do
  assertThat (s.state conn ≠ .absent)
  assertThat (conn ∈ s.connectionList)
  return { s with
    connectionList := s.connectionList.erase conn
    state := Function.update s.state conn .disconnected }

/-- `splice` moves the connection to the end. -/
def onMessage (time : Timestamp) (conn : ℕ) : Except Fault EchoServer := do
  assertThat (s.state conn ≠ .absent)
  assertThat (conn ∈ s.connectionList)
  let connectionList := s.connectionList.erase conn ++ [conn]
  assertThat (connectionList.getLast? = some conn)
  return { s with
    connectionList := connectionList
    lastReceiveTime := Function.update s.lastReceiveTime conn time }

/-- `shutdown` and `forceCloseWithDelay(3.5)`. -/
def shutdown (now : Timestamp) (conn : ℕ) : EchoServer :=
  if s.state conn = .connected then
    { s with
      state := Function.update s.state conn .disconnecting
      forceCloses := s.forceCloses ++ [(conn, addTime now 3500000)] }
  else s

/-- The loop of `onTimer` over what is left of the list. A weak pointer in the list can be locked
for as long as the connection is up. -/
def onTimerLoop (idleSeconds : ℤ) (now : Timestamp) : List ℕ → EchoServer → EchoServer
  | [], s => s
  | conn :: rest, s =>
    let age := now - s.lastReceiveTime conn
    if age > idleSeconds * Timestamp.kMicroSecondsPerSecond then
      onTimerLoop idleSeconds now rest (s.shutdown now conn)
    else if age < 0 then
      onTimerLoop idleSeconds now rest
        { s with
          lastReceiveTime := Function.update s.lastReceiveTime conn now
          timeJumps := s.timeJumps ++ [conn] }
    else s

def onTimer (idleSeconds : ℤ) (now : Timestamp) : EchoServer :=
  onTimerLoop idleSeconds now s.connectionList s

end EchoServer

/-- The server with the clock and the time of the loop. -/
structure System where
  now : Timestamp
  pollReturnTime : Timestamp
  server : EchoServer

/-- The wall clock may be set, forwards or back. -/
inductive Event
  | pass (microseconds : ℤ)
  | poll
  | connect (conn : ℕ)
  | message (conn : ℕ)
  | disconnect (conn : ℕ)
  | tick
  deriving DecidableEq

namespace System

def init (now : Timestamp) : System := ⟨now, now, ⟨[], fun _ => 0, fun _ => .absent, [], []⟩⟩

variable (s : System)

def step (idleSeconds : ℤ) : Event → Except Fault System
  | .pass microseconds => .ok { s with now := s.now + microseconds }
  | .poll => .ok { s with pollReturnTime := s.now }
  | .connect conn => .ok { s with server := s.server.connect s.now conn }
  | .message conn => do return { s with server := ← s.server.onMessage s.pollReturnTime conn }
  | .disconnect conn => do return { s with server := ← s.server.disconnect conn }
  | .tick => .ok { s with server := s.server.onTimer idleSeconds s.now }

/-- The clock does not go back, and messages are handled at most `lag` after `poll` has
returned. -/
def Allows (lag : ℕ) : Event → Prop
  | .pass microseconds => 0 ≤ microseconds
  | .connect conn => s.server.state conn = .absent
  | .message conn => (s.server.state conn).Up ∧ s.now ≤ s.pollReturnTime + lag
  | .disconnect conn => (s.server.state conn).Up
  | .poll | .tick => True

instance (lag : ℕ) : (e : Event) → Decidable (s.Allows lag e)
  | .pass microseconds => inferInstanceAs (Decidable (0 ≤ microseconds))
  | .connect conn => inferInstanceAs (Decidable (s.server.state conn = .absent))
  | .message conn => inferInstanceAs
      (Decidable ((s.server.state conn).Up ∧ s.now ≤ s.pollReturnTime + lag))
  | .disconnect conn => inferInstanceAs (Decidable (s.server.state conn).Up)
  | .poll | .tick => .isTrue trivial

def machine (idleSeconds : ℤ) (lag : ℕ) : Machine System Event Fault where
  Allows s e := s.Allows lag e
  step s e := s.step idleSeconds e

instance (idleSeconds : ℤ) (lag : ℕ) (e : Event) :
    Decidable ((machine idleSeconds lag).Allows s e) :=
  inferInstanceAs (Decidable (s.Allows lag e))

end System

/-- The two times, and when something was heard of one connection. -/
structure Ear where
  now : Timestamp
  pollReturnTime : Timestamp
  heard : Timestamp

namespace Ear

def init (now : Timestamp) : Ear := ⟨now, now, 0⟩

def next (conn : ℕ) (ear : Ear) : Event → Ear
  | .pass microseconds => { ear with now := ear.now + microseconds }
  | .poll => { ear with pollReturnTime := ear.now }
  | .connect c => if c = conn then { ear with heard := ear.now } else ear
  | .message c => if c = conn then { ear with heard := ear.pollReturnTime } else ear
  | .disconnect _ | .tick => ear

def age (ear : Ear) : ℤ := ear.now - ear.heard

end Ear

namespace EchoServer

variable (s : EchoServer) (idleSeconds : ℤ) (now : Timestamp)

/-- More than `idleSeconds` have passed. -/
def expired (conn : ℕ) : Bool :=
  idleSeconds * Timestamp.kMicroSecondsPerSecond < now - s.lastReceiveTime conn

theorem shutdown_lastReceiveTime (conn : ℕ) :
    (s.shutdown now conn).lastReceiveTime = s.lastReceiveTime := by
  rw [shutdown]
  split_ifs <;> rfl

theorem shutdown_connectionList (conn : ℕ) :
    (s.shutdown now conn).connectionList = s.connectionList := by
  rw [shutdown]
  split_ifs <;> rfl

theorem shutdown_timeJumps (conn : ℕ) : (s.shutdown now conn).timeJumps = s.timeJumps := by
  rw [shutdown]
  split_ifs <;> rfl

theorem shutdown_state (conn : ℕ) :
    (s.shutdown now conn).state = Function.update s.state conn (s.state conn).shutdown := by
  rw [shutdown]
  split_ifs with h
  · rw [h]
    rfl
  · cases hstate : s.state conn with
    | connected => exact absurd hstate h
    | _ => exact (Function.update_eq_self_iff.mpr hstate.symm).symm

theorem shutdown_forceCloses (conn : ℕ) : s.forceCloses ⊆ (s.shutdown now conn).forceCloses := by
  rw [shutdown]
  split_ifs
  · exact List.subset_append_left _ _
  · exact List.Subset.refl _

/-- When no time lies in the future, the loop shuts down the front of the list. -/
theorem onTimerLoop_eq (l : List ℕ) (hpast : ∀ conn ∈ l, s.lastReceiveTime conn ≤ now) :
    onTimerLoop idleSeconds now l s =
      (l.takeWhile (s.expired idleSeconds now)).foldl (fun s conn => s.shutdown now conn) s := by
  induction l generalizing s with
  | nil => rfl
  | cons conn rest ih =>
    obtain ⟨hconn, hrest⟩ := List.forall_mem_cons.mp hpast
    rw [onTimerLoop]
    by_cases hage : now - s.lastReceiveTime conn >
        idleSeconds * Timestamp.kMicroSecondsPerSecond
    · have hsame : (s.shutdown now conn).expired idleSeconds now = s.expired idleSeconds now := by
        funext c
        rw [expired, expired, shutdown_lastReceiveTime]
      have hexpired : s.expired idleSeconds now conn = true := decide_eq_true hage
      rw [if_pos hage, ih _ (by rwa [shutdown_lastReceiveTime]), hsame,
        List.takeWhile_cons_of_pos hexpired, List.foldl_cons]
    · have hyoung : ¬s.expired idleSeconds now conn = true := by simpa [expired] using hage
      rw [if_neg hage, if_neg (not_lt.mpr (sub_nonneg.mpr hconn)),
        List.takeWhile_cons_of_neg hyoung, List.foldl_nil]

/-- What the loop did to the connections that it has shut down. -/
theorem foldl_shutdown (l : List ℕ) :
    let t := l.foldl (fun s conn => s.shutdown now conn) s
    t.connectionList = s.connectionList ∧ t.lastReceiveTime = s.lastReceiveTime ∧
      t.timeJumps = s.timeJumps ∧
      (∀ conn, t.state conn = if conn ∈ l then (s.state conn).shutdown else s.state conn) ∧
      s.forceCloses ⊆ t.forceCloses ∧
      ∀ conn ∈ l, s.state conn = .connected → (conn, addTime now 3500000) ∈ t.forceCloses := by
  induction l generalizing s with
  | nil => simp
  | cons c rest ih =>
    obtain ⟨hlist, htime, hjumps, hstate, hold, hnew⟩ := ih (s.shutdown now c)
    rw [shutdown_connectionList] at hlist
    rw [shutdown_lastReceiveTime] at htime
    rw [shutdown_timeJumps] at hjumps
    rw [shutdown_state] at hstate hnew
    refine ⟨hlist, htime, hjumps, fun conn => ?_,
      List.Subset.trans (s.shutdown_forceCloses now c) hold, fun conn hmem hup => ?_⟩
    · rw [List.foldl_cons, hstate conn]
      by_cases heq : conn = c
      · subst heq
        rw [Function.update_self, if_pos List.mem_cons_self, ConnState.shutdown_shutdown, ite_self]
      · simp only [Function.update_of_ne heq, List.mem_cons, heq, false_or]
    · by_cases heq : conn = c
      · subst heq
        refine hold ?_
        rw [shutdown, if_pos hup]
        exact List.mem_append_right _ List.mem_cons_self
      · refine hnew conn ((List.mem_cons.mp hmem).resolve_left heq) ?_
        rw [Function.update_of_ne heq]
        exact hup

end EchoServer

/-- A list that is sorted up to `lag`: what is much too old is in the front part. -/
theorem mem_takeWhile_of_sorted {l : List ℕ} {last : ℕ → ℤ} {lag limit : ℤ}
    (hsorted : l.Pairwise fun a b => last a ≤ last b + lag) (hlag : 0 ≤ lag) {conn : ℕ}
    (hmem : conn ∈ l) (hold : last conn + lag < limit) :
    conn ∈ l.takeWhile fun c => decide (last c < limit) := by
  induction l with
  | nil => cases hmem
  | cons c rest ih =>
    obtain ⟨hc, hrest⟩ := List.pairwise_cons.mp hsorted
    have hfirst : last c < limit := by
      rcases List.mem_cons.mp hmem with rfl | hmem
      · omega
      · exact lt_of_le_of_lt (hc conn hmem) hold
    simp only [List.takeWhile_cons, hfirst, decide_true, if_true]
    rcases List.mem_cons.mp hmem with rfl | hmem
    · exact List.mem_cons_self
    · exact List.mem_cons_of_mem _ (ih hrest hmem)

/-- The list has the connections that are up, and its order is that of the times up to `lag`. -/
structure Sorted (lag : ℕ) (s : System) (ear : ℕ → Ear) : Prop where
  nodup : s.server.connectionList.Nodup
  mem_iff : ∀ conn, conn ∈ s.server.connectionList ↔ (s.server.state conn).Up
  sorted : s.server.connectionList.Pairwise fun a b =>
    s.server.lastReceiveTime a ≤ s.server.lastReceiveTime b + lag
  past : ∀ conn ∈ s.server.connectionList, s.server.lastReceiveTime conn ≤ s.now
  poll_le : s.pollReturnTime ≤ s.now
  now_eq : ∀ conn, (ear conn).now = s.now
  poll_eq : ∀ conn, (ear conn).pollReturnTime = s.pollReturnTime
  heard : ∀ conn ∈ s.server.connectionList, (ear conn).heard = s.server.lastReceiveTime conn
  jumps : s.server.timeJumps = []

section Steps

variable {lag : ℕ} {s : System} {ear : ℕ → Ear} {conn : ℕ}

theorem sorted_init (lag : ℕ) (now : Timestamp) : Sorted lag (.init now) fun _ => .init now where
  nodup := List.nodup_nil
  mem_iff conn := by
    show conn ∈ [] ↔ ConnState.Up .absent
    simp [ConnState.Up]
  sorted := List.Pairwise.nil
  past conn h := by cases h
  poll_le := le_refl now
  now_eq _ := rfl
  poll_eq _ := rfl
  heard conn h := by cases h
  jumps := rfl

theorem Sorted.pass (h : Sorted lag s ear) {d : ℤ} (hd : 0 ≤ d) :
    Sorted lag { s with now := s.now + d } fun c => (ear c).next c (.pass d) where
  nodup := h.nodup
  mem_iff := h.mem_iff
  sorted := h.sorted
  past conn hconn := le_add_of_le_of_nonneg (h.past conn hconn) hd
  poll_le := le_add_of_le_of_nonneg h.poll_le hd
  now_eq conn := by
    show (ear conn).now + d = s.now + d
    rw [h.now_eq]
  poll_eq := h.poll_eq
  heard := h.heard
  jumps := h.jumps

theorem Sorted.poll (h : Sorted lag s ear) :
    Sorted lag { s with pollReturnTime := s.now } fun c => (ear c).next c .poll where
  nodup := h.nodup
  mem_iff := h.mem_iff
  sorted := h.sorted
  past := h.past
  poll_le := le_refl s.now
  now_eq := h.now_eq
  poll_eq := h.now_eq
  heard := h.heard
  jumps := h.jumps

/-- A connection goes to the end of the list, with a time that is not far behind. Both new
connections and messages do this. -/
theorem Sorted.hear (h : Sorted lag s ear) {l : List ℕ} {state : ℕ → ConnState}
    {time : Timestamp} {ear' : ℕ → Ear} (hl : l.Sublist s.server.connectionList) (hnot : conn ∉ l)
    (hmem : ∀ c, c ∈ l ++ [conn] ↔ (state c).Up) (htime : time ≤ s.now)
    (hlag : s.now ≤ time + lag)
    (hear : ∀ c, ear' c = if conn = c then ⟨s.now, s.pollReturnTime, time⟩ else ear c) :
    Sorted lag { s with server := { s.server with
      connectionList := l ++ [conn]
      lastReceiveTime := Function.update s.server.lastReceiveTime conn time
      state := state } } ear' := by
  have hne : ∀ c ∈ l, c ≠ conn := by
    rintro c hc rfl
    exact hnot hc
  have hother : ∀ c ∈ l, Function.update s.server.lastReceiveTime conn time c =
      s.server.lastReceiveTime c := fun c hc => Function.update_of_ne (hne c hc) _ _
  have hlast := Function.update_self conn time s.server.lastReceiveTime
  refine ⟨?_, hmem, ?_, fun c hc => ?_, h.poll_le, fun c => ?_, fun c => ?_, fun c hc => ?_,
    h.jumps⟩
  · exact List.nodup_append.mpr ⟨h.nodup.sublist hl, List.nodup_singleton _, fun a ha b hb =>
      List.mem_singleton.mp hb ▸ hne a ha⟩
  · show (l ++ [conn]).Pairwise fun a b => Function.update s.server.lastReceiveTime conn time a ≤
      Function.update s.server.lastReceiveTime conn time b + lag
    refine List.pairwise_append.mpr ⟨?_, List.pairwise_singleton _ _, fun a ha b hb => ?_⟩
    · refine (h.sorted.sublist hl).imp_of_mem fun {a b} ha hb hab => ?_
      rwa [hother a ha, hother b hb]
    · rw [List.mem_singleton.mp hb, hlast, hother a ha]
      exact (h.past a (hl.subset ha)).trans hlag
  · show Function.update s.server.lastReceiveTime conn time c ≤ s.now
    rcases List.mem_append.mp hc with hc | hc
    · rw [hother c hc]
      exact h.past c (hl.subset hc)
    · rwa [List.mem_singleton.mp hc, hlast]
  · rw [hear]
    split_ifs
    · rfl
    · exact h.now_eq c
  · rw [hear]
    split_ifs
    · rfl
    · exact h.poll_eq c
  · show _ = Function.update s.server.lastReceiveTime conn time c
    rcases List.mem_append.mp hc with hc | hc
    · rw [hother c hc, hear, if_neg (hne c hc).symm]
      exact h.heard c (hl.subset hc)
    · rw [List.mem_singleton.mp hc, hlast, hear, if_pos rfl]

theorem Sorted.connect (h : Sorted lag s ear) (habsent : s.server.state conn = .absent) :
    Sorted lag { s with server := s.server.connect s.now conn }
      fun c => (ear c).next c (.connect conn) := by
  have hnot : conn ∉ s.server.connectionList := by
    rw [h.mem_iff, habsent]
    decide
  refine h.hear (List.Sublist.refl _) hnot (fun c => ?_) le_rfl
    (le_add_of_nonneg_right (Int.natCast_nonneg lag)) (fun c => ?_)
  · by_cases heq : c = conn
    · simp [heq, ConnState.Up]
    · simp [heq, h.mem_iff]
  · rw [Ear.next, h.now_eq, h.poll_eq]

theorem Sorted.message (h : Sorted lag s ear) (idleSeconds : ℤ) (hup : (s.server.state conn).Up)
    (hlag : s.now ≤ s.pollReturnTime + lag) :
    ∃ t, s.step idleSeconds (.message conn) = .ok t ∧
      Sorted lag t fun c => (ear c).next c (.message conn) := by
  have hmem := (h.mem_iff conn).mpr hup
  refine ⟨{ s with server := { s.server with
    connectionList := s.server.connectionList.erase conn ++ [conn]
    lastReceiveTime := Function.update s.server.lastReceiveTime conn s.pollReturnTime } }, ?_, ?_⟩
  · simp [System.step, EchoServer.onMessage, hup.ne_absent, hmem]
  · refine h.hear List.erase_sublist h.nodup.not_mem_erase (fun c => ?_) h.poll_le hlag
      (fun c => ?_)
    · by_cases heq : c = conn
      · simp [heq, hup]
      · simp [heq, List.mem_erase_of_ne heq, h.mem_iff]
    · rw [Ear.next, h.now_eq, h.poll_eq]

theorem Sorted.disconnect (h : Sorted lag s ear) (idleSeconds : ℤ)
    (hup : (s.server.state conn).Up) :
    ∃ t, s.step idleSeconds (.disconnect conn) = .ok t ∧
      Sorted lag t fun c => (ear c).next c (.disconnect conn) := by
  have hmem := (h.mem_iff conn).mpr hup
  have hsub : s.server.connectionList.erase conn ⊆ s.server.connectionList :=
    List.erase_subset
  refine ⟨{ s with server := { s.server with
    connectionList := s.server.connectionList.erase conn
    state := Function.update s.server.state conn .disconnected } }, ?_,
    h.nodup.erase conn, fun c => ?_, h.sorted.sublist List.erase_sublist,
    fun c hc => h.past c (hsub hc), h.poll_le, h.now_eq, h.poll_eq,
    fun c hc => h.heard c (hsub hc), h.jumps⟩
  · simp [System.step, EchoServer.disconnect, hup.ne_absent, hmem]
  · by_cases heq : c = conn
    · simp [heq, h.nodup.not_mem_erase, ConnState.Up]
    · simp [heq, List.mem_erase_of_ne heq, h.mem_iff]

/-- The timer changes the states and nothing else that counts here. -/
theorem Sorted.tick (h : Sorted lag s ear) (idleSeconds : ℤ) :
    Sorted lag { s with server := s.server.onTimer idleSeconds s.now }
      fun c => (ear c).next c .tick := by
  obtain ⟨hlist, htime, hjumps, hstate, -⟩ := s.server.foldl_shutdown s.now
    (s.server.connectionList.takeWhile (s.server.expired idleSeconds s.now))
  rw [EchoServer.onTimer, EchoServer.onTimerLoop_eq _ _ _ _ h.past]
  refine ⟨?_, fun c => ?_, ?_, ?_, h.poll_le, h.now_eq, h.poll_eq, ?_, hjumps.trans h.jumps⟩
  · rw [hlist]
    exact h.nodup
  · rw [hlist, hstate, h.mem_iff]
    split_ifs
    · exact ConnState.up_shutdown.symm
    · rfl
  · simp only [hlist, htime]
    exact h.sorted
  · simp only [hlist, htime]
    exact h.past
  · simp only [hlist, htime]
    exact h.heard

end Steps

/-- A clock that does not go back, and messages that wait at most `lag` behind `poll`. No
assertion fails, the timer has never found a jump of the time and finds none now, and after any
run it leaves a connection alone that has not been idle for more than `idleSeconds`, and shuts
down every one that has been idle for `lag` more than that. It will be closed three and a half
seconds later. -/
theorem sortedList_shuts_down_idle (idleSeconds : ℤ) (lag : ℕ) (now : Timestamp)
    (events : List Event) (hp : (System.machine idleSeconds lag).Permits (.init now) events) :
    ∃ s, (System.machine idleSeconds lag).run (.init now) events = .ok s ∧
      s.server.timeJumps = [] ∧ (s.server.onTimer idleSeconds s.now).timeJumps = [] ∧
      ∀ conn, s.server.state conn = .connected →
        let age := (events.foldl (fun ear e => ear.next conn e) (Ear.init now)).age
        let t := s.server.onTimer idleSeconds s.now
        (age ≤ idleSeconds * Timestamp.kMicroSecondsPerSecond → t.state conn = .connected) ∧
        (idleSeconds * Timestamp.kMicroSecondsPerSecond + lag < age →
          t.state conn = .disconnecting ∧ (conn, addTime s.now 3500000) ∈ t.forceCloses) := by
  obtain ⟨s, hs, h⟩ := (System.machine idleSeconds lag).run_refines (Sorted lag)
    (fun ear e c => (ear c).next c e)
    (fun s ear e h ha => by
      cases e with
      | pass d => exact ⟨_, rfl, h.pass ha⟩
      | poll => exact ⟨_, rfl, h.poll⟩
      | connect conn => exact ⟨_, rfl, h.connect ha⟩
      | message conn => exact h.message idleSeconds ha.1 ha.2
      | disconnect conn => exact h.disconnect idleSeconds ha
      | tick => exact ⟨_, rfl, h.tick idleSeconds⟩)
    events (.init now) (fun _ => .init now) (sorted_init lag now) hp
  refine ⟨s, hs, h.jumps, (h.tick idleSeconds).jumps, fun conn hconn => ?_⟩
  obtain ⟨-, -, -, hstate, -, hforce⟩ := s.server.foldl_shutdown s.now
    (s.server.connectionList.takeWhile (s.server.expired idleSeconds s.now))
  have hmem : conn ∈ s.server.connectionList := by
    rw [h.mem_iff, hconn]
    decide
  have hage := h.heard conn hmem
  have hnow := h.now_eq conn
  rw [foldl_pointwise fun c ear e => Ear.next c ear e] at hage hnow
  simp only [Ear.age, hage, hnow]
  rw [EchoServer.onTimer, EchoServer.onTimerLoop_eq _ _ _ _ h.past, hstate, hconn]
  refine ⟨fun hyoung => ?_, fun hold => ?_⟩
  · rw [if_neg fun hfront => ?_]
    have hexpired : s.server.expired idleSeconds s.now conn = true :=
      List.mem_takeWhile_imp hfront
    exact absurd (of_decide_eq_true hexpired) (not_lt.mpr hyoung)
  · have hfront : conn ∈ s.server.connectionList.takeWhile
        (s.server.expired idleSeconds s.now) := by
      have hlimit : s.server.expired idleSeconds s.now = fun c => decide
          (s.server.lastReceiveTime c <
            s.now - idleSeconds * Timestamp.kMicroSecondsPerSecond) := by
        funext c
        exact decide_eq_decide.mpr lt_sub_comm
      rw [hlimit]
      exact mem_takeWhile_of_sorted h.sorted (Int.natCast_nonneg lag) hmem (by linarith)
    rw [if_pos hfront]
    exact ⟨rfl, hforce conn hfront hconn⟩

/-- Connection 1 is behind connection 2 in the list, but was heard of a microsecond earlier. The
first timer stops at 2 although the second of 1 has passed. The next one shuts it down. -/
theorem sortedList_shuts_down_idle_lag :
    ∃ s, (System.machine 1 1).run (.init 1)
        [.connect 1, .pass 1, .connect 2, .message 1, .pass 1000000, .tick, .pass 1] = .ok s ∧
      s.server.state 1 = .connected ∧ s.server.timeJumps = [] ∧
      (s.server.onTimer 1 s.now).state 1 = .disconnecting := by
  obtain ⟨s, hs, hjumps, -, h⟩ := sortedList_shuts_down_idle 1 1 1
    [.connect 1, .pass 1, .connect 2, .message 1, .pass 1000000, .tick, .pass 1] (by decide)
  have hstate : s.server.state 1 = .connected := by
    rw [← Except.ok.inj hs]
    decide
  exact ⟨s, hs, hstate, hjumps, ((h 1 hstate).2 (by decide)).1⟩

end SortedList
end Idle
end Muduo
