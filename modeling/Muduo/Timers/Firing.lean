import Muduo.Timers.Reentrancy

/-!
# What a batch runs

`getExpired` cuts the ordered set of timers in front of an entry with a maximal
address, so that all timers that are due at the given time are on the one side,
whatever their addresses. `handleRead` then runs the callbacks of exactly these,
in order and once each. The callbacks may add timers, due or not, and cancel any:
neither changes what the batch still has to run.
-/

namespace Muduo

open Foundations TimerQueue

namespace TimerQueue

def idOf (q : TimerQueue) (e : Entry) : TimerId :=
  ⟨e.ptr, ((q.heap e.ptr).map Timer.sequence).getD 0⟩

theorem idOf_eq {q : TimerQueue} {e : Entry} {timer : Timer} (h : q.heap e.ptr = some timer) :
    q.idOf e = ⟨e.ptr, timer.sequence⟩ := by
  simp [idOf, h]

/-- `expired` is what `getExpired` is to move out at `now`, and `q'` what it leaves. -/
structure SplitAt (q : TimerQueue) (now : Timestamp) (expired : List Entry) (q' : TimerQueue) :
    Prop where
  moved : ∀ when p, toLex (when, p) ∈ expired ↔ toLex (when, p) ∈ q.timers ∧ when ≤ now
  left : ∀ when p, toLex (when, p) ∈ q'.timers ↔ toLex (when, p) ∈ q.timers ∧ now < when
  ordered : expired.Pairwise fun e f => (ofLex e).1 ≤ (ofLex f).1
  live : ∀ e ∈ expired, ∃ timer, q.heap e.ptr = some timer ∧ timer.expiration = (ofLex e).1
  once : (expired.map Entry.ptr).Nodup

variable {q : TimerQueue} {S : Set TimerPtr}

theorem Stores.splitAt (h : q.Stores S) (hbound : ∀ p ∈ S, p < uintptrMax) (now : Timestamp) :
    ∃ q', q.getExpired now = .ok (q.timers.below (toLex (now, uintptrMax)), q') ∧
      q.SplitAt now (q.timers.below (toLex (now, uintptrMax))) q' := by
  obtain ⟨active, hget, hstores⟩ := getExpired_ok h hbound now
  refine ⟨_, hget, ?_, ?_, ?_, ?_, h.expired_nodup now⟩
  · intro when p
    rw [OrderedSet.mem_below]
    refine and_congr_right fun hm => ?_
    exact lt_sentry_iff (hbound p ((h.timers when p).mp hm).1)
  · intro when p
    rw [OrderedSet.mem_onwards]
    refine and_congr_right fun hm => ?_
    rw [← not_lt, lt_sentry_iff (hbound p ((h.timers when p).mp hm).1), not_le]
  · have hsorted : (q.timers.below (toLex (now, uintptrMax))).Pairwise (· < ·) :=
      q.timers.sorted.sublist (List.takeWhile_sublist _)
    refine hsorted.imp fun {e f} hlt => ?_
    rcases Prod.Lex.lt_iff.mp hlt with hlt | ⟨heq, -⟩
    · exact hlt.le
    · exact heq.le
  · rintro ⟨when, p⟩ he
    obtain ⟨-, timer, ht, rfl⟩ := (h.timers when p).mp (OrderedSet.mem_below.mp he).1
    exact ⟨timer, ht, rfl⟩

end TimerQueue

namespace TimerLoop

variable {w w' : TimerLoop} {S : Set TimerPtr}

/-- A batch is being run: the callbacks so far are those of its first timers, and
its timers are still the ones that were moved out. -/
structure Firing (id : Entry → TimerId) (before : List TimerId) (now : Timestamp)
    (expired : List Entry) (w : TimerLoop) : Prop where
  running : ∃ done rest, expired = done ++ rest ∧ w.batch = some ⟨now, expired, rest⟩ ∧
    w.ran = before ++ done.map id
  named : ∀ e ∈ expired, ∃ timer, w.queue.heap e.ptr = some timer ∧ id e = ⟨e.ptr, timer.sequence⟩

variable {id : Entry → TimerId} {before : List TimerId} {now : Timestamp} {expired : List Entry}

theorem Firing.congr (h : Firing id before now expired w) (hbatch : w'.batch = w.batch)
    (hran : w'.ran = w.ran)
    (hheap : ∀ e ∈ expired, w'.queue.heap e.ptr = w.queue.heap e.ptr) :
    Firing id before now expired w' := by
  refine ⟨?_, fun e he => ?_⟩
  · rw [hbatch, hran]
    exact h.running
  · rw [hheap e he]
    exact h.named e he

theorem Firing.step (h : Firing id before now expired w) (hw : w.Consistent S) {a : TimerStep}
    (ha : w.Allows a) (hend : ∀ clock, a ≠ .endHandleRead clock) (hstep : w.step a = .ok w') :
    Firing id before now expired w' := by
  obtain ⟨done, rest, hsplit, hbatch, hran⟩ := h.running
  cases a with
  | newTimer p timer =>
    cases hstep
    refine h.congr rfl rfl fun e he => ?_
    obtain ⟨old, hold, -⟩ := h.named e he
    have hne : e.ptr ≠ p := by
      rintro rfl
      exact absurd (ha.1.symm.trans hold) (by simp)
    exact Function.update_of_ne hne _ _
  | addTimerInLoop p clock =>
    obtain ⟨hS, timer, ht⟩ := hw.outside p (List.mem_append_left _ ha.2)
    have hok := addTimerInLoop_ok hw.stores ht hS clock
    simp only [TimerLoop.step, hok, ok_bind] at hstep
    cases hstep
    exact h.congr rfl rfl fun e _ => rfl
  | cancelInLoop i =>
    rcases cancelInLoop_ok hw.stores i with ⟨timer, hp, ht, -, hok⟩ | ⟨canceling, hok⟩
    · simp only [TimerLoop.step, hok, ok_bind] at hstep
      cases hstep
      refine h.congr rfl rfl fun e he => ?_
      have hne : e.ptr ≠ i.timer := by
        intro heq
        exact ((hw.batch_outside hbatch).2 e.ptr (List.mem_map_of_mem he)).1 (heq ▸ hp)
      exact Function.update_of_ne hne _ _
    · simp only [TimerLoop.step, hok, ok_bind] at hstep
      cases hstep
      exact h.congr rfl rfl fun e _ => rfl
  | beginHandleRead now readAt => simp [Allows, hbatch] at ha
  | runCallback =>
    obtain ⟨b, hb, hrest⟩ := ha
    cases hbatch.symm.trans hb
    obtain ⟨e, rest, rfl⟩ := List.exists_cons_of_ne_nil hrest
    have he : e ∈ expired := by simp [hsplit]
    obtain ⟨timer, ht, hid⟩ := h.named e he
    simp only [TimerLoop.step, runCallback, hbatch, deref_ok ht, ok_bind] at hstep
    cases hstep
    refine ⟨⟨done ++ [e], rest, by simp [hsplit], rfl, ?_⟩, h.named⟩
    simp [hran, hid]
  | endHandleRead clock => exact absurd rfl (hend clock)
  | expire =>
    cases hstep
    exact h.congr rfl rfl fun e _ => rfl

/-- The step lemma over the machine, for the steps inside a batch. -/
theorem step_firing (w : TimerLoop) (a : TimerStep) (w' : TimerLoop)
    (hend : ∀ clock, a ≠ .endHandleRead clock)
    (h : (∃ S, w.Consistent S) ∧ Firing id before now expired w) (ha : machine.Allows w a)
    (hstep : machine.step w a = .ok w') :
    (∃ S, w'.Consistent S) ∧ Firing id before now expired w' := by
  obtain ⟨⟨S, hS⟩, hfiring⟩ := h
  obtain ⟨w'', hstep', hS'⟩ := step_consistent hS ha
  cases hstep.symm.trans hstep'
  exact ⟨hS', hfiring.step hS ha hend hstep⟩

theorem Consistent.begin_firing (hw : w.Consistent S) {now readAt : Timestamp}
    (ha : w.Allows (.beginHandleRead now readAt)) :
    ∃ w', w.step (.beginHandleRead now readAt) = .ok w' ∧ (∃ S', w'.Consistent S') ∧
      Firing w.queue.idOf w.ran now (w.queue.timers.below (toLex (now, uintptrMax))) w' := by
  obtain ⟨active, hok, hstores⟩ := beginHandleRead_ok hw.stores hw.bound_stored now readAt
  have hb : w.batch = none := by simpa [Allows] using ha
  obtain ⟨q', -, hsplit⟩ := hw.stores.splitAt hw.bound_stored now
  refine ⟨_, by simp only [TimerLoop.step, hok, ok_bind]; rfl,
    ⟨_, beginHandleRead_consistent hw hb hstores⟩, ⟨[], _, rfl, rfl, by simp⟩, fun e he => ?_⟩
  obtain ⟨timer, ht, -⟩ := hsplit.live e he
  exact ⟨timer, ht, idOf_eq ht⟩

/-- Two timers that are due at the same time, with one that is not. -/
def dueTogether : List TimerStep :=
  [.newTimer 16 (.once 5 1), .newTimer 8 (.every 5 10 2), .newTimer 24 (.once 6 3),
    .addTimerInLoop 16 1, .addTimerInLoop 8 1, .addTimerInLoop 24 2]

/-- The first of them adds a timer that is already due, and cancels the other. -/
def meddling : List TimerStep :=
  [.runCallback, .newTimer 32 (.once 0 4), .addTimerInLoop 32 6, .cancelInLoop ⟨16, 1⟩,
    .runCallback]

end TimerLoop
end Muduo
