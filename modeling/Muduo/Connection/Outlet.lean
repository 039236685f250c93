import Muduo.Foundations.History
import Muduo.Connection.Output

/-!
# The way out of a connection

What several threads and the loop do to the output of one connection, without
the connection: messages wait in the hands of the senders and in the queue of
the loop, are passed on one by one, and are written or buffered; at some time
the connection starts to close, and with an empty buffer the socket is shut down
for writing. A shutdown loses nothing exactly when no message waits while it is
done.
-/

namespace Muduo

open Foundations

def Event.message : Event → Option (List UInt8)
  | sendInLoop message => some message
  | _ => none

/-- Before the socket is shut down, every message of a returned `send` has been
passed on, and all bytes passed on have been written. -/
def AllWritten (returned : List (List UInt8)) (before : List Event) (e : Event) : Prop :=
  e = .shutdownWrite →
    before.flatMap Event.accepted = before.flatMap Event.passed ∧
      returned.Subperm (before.filterMap Event.message)

def NoWriteAfter (before : List Event) (e : Event) : Prop :=
  e.isWrite = true → .shutdownWrite ∉ before

def Graceful (returned : List (List UInt8)) (history : List Event) : Prop :=
  Obeys (AllWritten returned) history ∧ Obeys NoWriteAfter history

structure Outlet where
  history : List Event
  buffered : List UInt8
  /-- messages of `sendInLoop` in the queue of the loop -/
  queued : List (List UInt8)
  /-- messages of calls of `send` that have seen `kConnected` and queued nothing yet -/
  sending : List (List UInt8)
  /-- messages of calls of `send` that returned before `shutdown` was called -/
  returned : List (List UInt8)
  closing : Bool

namespace Outlet

def Settled (v : Outlet) : Prop := v.queued = [] ∧ v.sending = []

/-- A `send` of the message returns; it counts only before the connection closes. -/
def Returns (v : Outlet) (message : List UInt8) (returned : List (List UInt8)) : Prop :=
  returned = v.returned ∨ v.closing = false ∧ returned = v.returned ++ [message]

/-- A message is passed on: with an empty buffer one write is tried. -/
structure Passes (v : Outlet) (message : List UInt8) (writes : List Event)
    (buffered : List UInt8) : Prop where
  bytes : writes.flatMap Event.accepted ++ buffered = v.buffered ++ message
  direct : v.buffered = [] → ∃ data errno, writes = [.write data errno]
  later : v.buffered ≠ [] → writes = []

/-- The moves, with a mark on those that shut the socket down. -/
inductive Moves (v : Outlet) : Bool → Outlet → Prop
  | stay : Moves v false v
  | check (message : List UInt8) (hopen : v.closing = false) :
      Moves v false { v with sending := v.sending ++ [message] }
  | queue (message : List UInt8) (sending returned : List (List UInt8))
      (hsending : v.sending.Perm (message :: sending)) (hreturns : v.Returns message returned) :
      Moves v false
        { v with sending := sending, queued := v.queued ++ [message], returned := returned }
  | send (message : List UInt8) (writes : List Event) (buffered : List UInt8)
      (returned : List (List UInt8)) (hopen : v.closing = false)
      (hpasses : v.Passes message writes buffered) (hreturns : v.Returns message returned) :
      Moves v false
        { v with
          history := v.history ++ .sendInLoop message :: writes
          buffered := buffered
          returned := returned }
  | run (message : List UInt8) (queued : List (List UInt8)) (writes : List Event)
      (buffered : List UInt8) (hqueued : v.queued = message :: queued)
      (hpasses : v.Passes message writes buffered) :
      Moves v false
        { v with
          history := v.history ++ .sendInLoop message :: writes
          buffered := buffered
          queued := queued }
  | write (data buffered : List UInt8) (errno : Option Errno) (hsome : v.buffered ≠ [])
      (hdata : data ++ buffered = v.buffered) :
      Moves v false
        { v with history := v.history ++ [.write data errno], buffered := buffered }
  | close : Moves v false { v with closing := true }
  | drain (hclosing : v.closing = true) (hsome : v.buffered ≠ []) :
      Moves v true
        { v with
          history := v.history ++ [.write v.buffered none, .shutdownWrite]
          buffered := [] }
  | shutdown (hclosing : v.closing = true) (hempty : v.buffered = []) :
      Moves v true { v with history := v.history ++ [.shutdownWrite] }

/-- What holds in every run. -/
structure Sound (v : Outlet) : Prop where
  bytes : v.history.flatMap Event.accepted ++ v.buffered = v.history.flatMap Event.passed
  closing : .shutdownWrite ∈ v.history → v.closing = true
  returned : v.returned.Subperm (v.history.filterMap Event.message ++ v.queued)

def Good (v : Outlet) : Prop :=
  Graceful v.returned v.history ∧ (.shutdownWrite ∈ v.history → v.Settled ∧ v.buffered = [])

/-- A write was tried behind a shutdown, or one is going to be. -/
def Doomed (v : Outlet) : Prop :=
  ¬ Obeys NoWriteAfter v.history ∨
    .shutdownWrite ∈ v.history ∧ v.buffered = [] ∧ ¬ v.Settled

section Passes

variable {v : Outlet} {message buffered : List UInt8} {writes : List Event}

theorem Passes.cases (h : v.Passes message writes buffered) :
    writes = [] ∨ ∃ data errno, writes = [.write data errno] := by
  by_cases hempty : v.buffered = []
  · exact .inr (h.direct hempty)
  · exact .inl (h.later hempty)

theorem Passes.filterMap_message (h : v.Passes message writes buffered) :
    writes.filterMap Event.message = [] := by
  rcases h.cases with rfl | ⟨data, errno, rfl⟩ <;> rfl

theorem Passes.flatMap_passed (h : v.Passes message writes buffered) :
    writes.flatMap Event.passed = [] := by
  rcases h.cases with rfl | ⟨data, errno, rfl⟩ <;> rfl

theorem Passes.no_shutdownWrite (h : v.Passes message writes buffered) :
    .shutdownWrite ∉ Event.sendInLoop message :: writes := by
  rcases h.cases with rfl | ⟨data, errno, rfl⟩ <;> simp

theorem Passes.bytes_kept (h : v.Passes message writes buffered)
    (hv : v.history.flatMap Event.accepted ++ v.buffered = v.history.flatMap Event.passed) :
    (v.history ++ .sendInLoop message :: writes).flatMap Event.accepted ++ buffered =
      (v.history ++ .sendInLoop message :: writes).flatMap Event.passed := by
  calc (v.history ++ .sendInLoop message :: writes).flatMap Event.accepted ++ buffered
      = v.history.flatMap Event.accepted ++ (writes.flatMap Event.accepted ++ buffered) := by
        simp [Event.accepted]
    _ = v.history.flatMap Event.passed ++ message := by
        rw [h.bytes, ← List.append_assoc, hv]
    _ = (v.history ++ .sendInLoop message :: writes).flatMap Event.passed := by
        simp [h.flatMap_passed, Event.passed]

theorem Passes.messages (h : v.Passes message writes buffered) :
    (v.history ++ .sendInLoop message :: writes).filterMap Event.message =
      v.history.filterMap Event.message ++ [message] := by
  simp [h.filterMap_message, Event.message]

end Passes

section Moves

variable {shuts : Bool} {v v' : Outlet}

theorem returned_append {returned : List (List UInt8)} {message : List UInt8}
    {somewhere : List (List UInt8)} (hv : v.returned.Subperm somewhere)
    (h : v.Returns message returned) : returned.Subperm (somewhere ++ [message]) := by
  rcases h with rfl | ⟨-, rfl⟩
  · exact hv.trans (List.sublist_append_left _ _).subperm
  · exact hv.append (List.Subperm.refl _)

theorem moves_sound (hm : Moves v shuts v') (h : v.Sound) : v'.Sound := by
  cases hm with
  | stay => exact h
  | check message hopen => exact ⟨h.bytes, h.closing, h.returned⟩
  | queue message sending returned hsending hreturns =>
    refine ⟨h.bytes, h.closing, ?_⟩
    rw [← List.append_assoc]
    exact returned_append h.returned hreturns
  | send message writes buffered returned hopen hpasses hreturns =>
    refine ⟨hpasses.bytes_kept h.bytes, fun hmem => ?_, ?_⟩
    · rcases List.mem_append.mp hmem with hmem | hmem
      · exact h.closing hmem
      · exact absurd hmem hpasses.no_shutdownWrite
    · rw [hpasses.messages, List.append_assoc]
      have hcomm : (v.queued ++ [message]).Perm ([message] ++ v.queued) := List.perm_append_comm
      have hperm := hcomm.append_left (v.history.filterMap Event.message)
      rw [← List.append_assoc] at hperm
      exact (returned_append h.returned hreturns).trans hperm.subperm
  | run message queued writes buffered hqueued hpasses =>
    refine ⟨hpasses.bytes_kept h.bytes, fun hmem => ?_, ?_⟩
    · rcases List.mem_append.mp hmem with hmem | hmem
      · exact h.closing hmem
      · exact absurd hmem hpasses.no_shutdownWrite
    · have := h.returned
      rw [hqueued] at this
      rw [hpasses.messages, List.append_assoc]
      exact this
  | write data buffered errno hsome hdata =>
    refine ⟨?_, fun hmem => h.closing (by simpa using hmem), ?_⟩
    · simpa [Event.accepted, Event.passed, hdata] using h.bytes
    · simpa [List.filterMap_cons, Event.message] using h.returned
  | close => exact ⟨h.bytes, fun _ => rfl, h.returned⟩
  | drain hclosing hsome =>
    refine ⟨?_, fun _ => hclosing, ?_⟩
    · simpa [Event.accepted, Event.passed] using h.bytes
    · simpa [List.filterMap_cons, Event.message] using h.returned
  | shutdown hclosing hempty =>
    refine ⟨?_, fun _ => hclosing, ?_⟩
    · simpa [Event.accepted, Event.passed] using h.bytes
    · simpa [List.filterMap_cons, Event.message] using h.returned

theorem moves_history (hm : Moves v shuts v') : ∃ events, v'.history = v.history ++ events := by
  cases hm with
  | send => exact ⟨_, rfl⟩
  | run => exact ⟨_, rfl⟩
  | write => exact ⟨_, rfl⟩
  | drain => exact ⟨_, rfl⟩
  | shutdown => exact ⟨_, rfl⟩
  | _ => exact ⟨[], (List.append_nil _).symm⟩

theorem good_of_open (h : .shutdownWrite ∉ v.history) : v.Good := by
  refine ⟨⟨?_, ?_⟩, fun hmem => absurd hmem h⟩
  · rintro before e after hhistory rfl
    exact absurd (by simp [hhistory]) h
  · intro before e after hhistory _ hmem
    exact h (by simp [hhistory, hmem])

theorem graceful_shutdown {history : List Event} {returned : List (List UInt8)}
    (h : Graceful returned history)
    (hbytes : history.flatMap Event.accepted = history.flatMap Event.passed)
    (hreturned : returned.Subperm (history.filterMap Event.message)) :
    Graceful returned (history ++ [.shutdownWrite]) :=
  ⟨h.1.concat fun _ => ⟨hbytes, hreturned⟩, h.2.concat fun hwrite => nomatch hwrite⟩

/-- The move that shuts an empty outlet down, with no message waiting. -/
theorem good_shutdown (hs : v.Sound) (hg : v.Good) (hempty : v.buffered = [])
    (hsettled : v.Settled) :
    Good { v with history := v.history ++ [.shutdownWrite] } := by
  have hbytes := hs.bytes
  have hreturned := hs.returned
  rw [hempty, List.append_nil] at hbytes
  rw [hsettled.1, List.append_nil] at hreturned
  exact ⟨graceful_shutdown hg.1 hbytes hreturned, fun _ => ⟨hsettled, hempty⟩⟩

theorem moves_good (hm : Moves v shuts v') (hs : v.Sound) (hg : v.Good)
    (hcalm : shuts = true → v.Settled) : v'.Good := by
  by_cases hshut : .shutdownWrite ∈ v.history
  · obtain ⟨hsettled, hempty⟩ := hg.2 hshut
    have hclosing := hs.closing hshut
    cases hm with
    | stay => exact hg
    | check message hopen => simp [hclosing] at hopen
    | queue message sending returned hsending =>
      rw [hsettled.2] at hsending
      exact absurd hsending.length_eq (by simp)
    | send message writes buffered returned hopen => simp [hclosing] at hopen
    | run message queued writes buffered hqueued => simp [hsettled.1] at hqueued
    | write data buffered errno hsome => exact absurd hempty hsome
    | close => exact hg
    | drain _ hsome => exact absurd hempty hsome
    | shutdown => exact good_shutdown hs hg hempty hsettled
  · cases hm with
    | stay => exact hg
    | check => exact good_of_open hshut
    | queue => exact good_of_open hshut
    | send message writes buffered returned _ hpasses =>
      apply good_of_open
      exact fun hmem => (List.mem_append.mp hmem).elim hshut hpasses.no_shutdownWrite
    | run message queued writes buffered _ hpasses =>
      apply good_of_open
      exact fun hmem => (List.mem_append.mp hmem).elim hshut hpasses.no_shutdownWrite
    | write => exact good_of_open (by simpa using hshut)
    | close => exact good_of_open hshut
    | drain hclosing hsome =>
      have hwritten : Moves v false { v with
          history := v.history ++ [.write v.buffered none], buffered := [] } :=
        .write v.buffered [] none hsome (List.append_nil _)
      have hopen : .shutdownWrite ∉ v.history ++ [.write v.buffered none] := by simpa using hshut
      have := good_shutdown (moves_sound hwritten hs) (good_of_open hopen) rfl (hcalm rfl)
      simpa using this
    | shutdown _ hempty => exact good_shutdown hs hg hempty (hcalm rfl)

theorem not_obeys_append {history : List Event} (h : ¬ Obeys NoWriteAfter history)
    (events : List Event) : ¬ Obeys NoWriteAfter (history ++ events) := by
  intro hall
  apply h
  intro before e after hhistory
  exact hall before e (after ++ events) (by simp [hhistory])

theorem doomed_of_shutdown (hm : Moves v true v') (hwaits : ¬ v.Settled) : v'.Doomed := by
  cases hm with
  | drain => exact .inr ⟨by simp, rfl, hwaits⟩
  | shutdown _ hempty => exact .inr ⟨by simp, hempty, hwaits⟩

theorem moves_doomed (hm : Moves v shuts v') (hs : v.Sound) (hd : v.Doomed) : v'.Doomed := by
  rcases hd with hwrote | ⟨hshut, hempty, hwaits⟩
  · obtain ⟨events, hevents⟩ := moves_history hm
    left
    rw [hevents]
    exact not_obeys_append hwrote events
  · have hclosing := hs.closing hshut
    cases hm with
    | stay => exact .inr ⟨hshut, hempty, hwaits⟩
    | check message hopen => simp [hclosing] at hopen
    | queue => exact .inr ⟨hshut, hempty, fun h => by simpa using h.1⟩
    | send message writes buffered returned hopen => simp [hclosing] at hopen
    | run message queued writes buffered hqueued hpasses =>
      -- the message is written to a socket that was shut down
      obtain ⟨data, errno, rfl⟩ := hpasses.direct hempty
      left
      intro hall
      refine hall (v.history ++ [.sendInLoop message]) (.write data errno) [] (by simp) rfl ?_
      simp [hshut]
    | write data buffered errno hsome => exact absurd hempty hsome
    | close => exact .inr ⟨hshut, hempty, hwaits⟩
    | drain _ hsome => exact absurd hempty hsome
    | shutdown => exact .inr ⟨by simp, hempty, hwaits⟩

theorem Doomed.not_graceful (hd : v.Doomed) (hsettled : v.Settled) :
    ¬ Graceful v.returned v.history := by
  rcases hd with hwrote | ⟨-, -, hwaits⟩
  · exact fun h => hwrote h.2
  · exact absurd hsettled hwaits

end Moves

end Outlet
end Muduo
