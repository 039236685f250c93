import Muduo.Timers.Consistency

/-!
# Runs of the timer queue

Timers are created on any thread, and their addition, cancellation and expiry
take place on the loop; callbacks call back into the queue while a batch is being
run. At each boundary between two calls every existing timer that is not in the
queue waits to be added or belongs to the batch.
-/

namespace Muduo

open Foundations TimerQueue

namespace TimerLoop

def batchPtrs (w : TimerLoop) : List TimerPtr :=
  match w.batch with
  | none => []
  | some b => b.expired.map Entry.ptr

/-- The queue stores `S`, and the timers outside it are told apart. -/
structure Consistent (w : TimerLoop) (S : Set TimerPtr) : Prop where
  stores : w.queue.Stores S
  bound : ∀ p timer, w.queue.heap p = some timer → p < uintptrMax
  nodup : (w.created ++ w.batchPtrs).Nodup
  outside : ∀ p ∈ w.created ++ w.batchPtrs, p ∉ S ∧ ∃ timer, w.queue.heap p = some timer
  rest : ∀ b ∈ w.batch, b.rest ⊆ b.expired

variable {w : TimerLoop} {S : Set TimerPtr} {p : TimerPtr} {timer : Timer}

theorem Consistent.bound_stored (h : w.Consistent S) : ∀ p ∈ S, p < uintptrMax := by
  intro p hp
  obtain ⟨timer, ht⟩ := h.stores.live p hp
  exact h.bound p timer ht

theorem consistent_init (clock : Timestamp) : (init clock).Consistent ∅ := by
  constructor
  · exact ⟨by simp, by simp [TimersAre, init, TimerQueue.init],
      by simp [ActiveAre, init, TimerQueue.init]⟩
  · simp [init, TimerQueue.init]
  · simp [init, batchPtrs]
  · simp [init, batchPtrs]
  · simp [init]

theorem newTimer_consistent (h : w.Consistent S) (hp : w.queue.heap p = none)
    (hb : p < uintptrMax) :
    Consistent { w with
      queue := w.queue.store p timer
      created := p :: w.created
      numCreated := timer.sequence } S := by
  have hS : p ∉ S := by
    intro hm
    obtain ⟨timer, ht⟩ := h.stores.live p hm
    simp [hp] at ht
  have hout : p ∉ w.created ++ w.batchPtrs := by
    intro hm
    obtain ⟨-, timer, ht⟩ := h.outside p hm
    simp [hp] at ht
  have hheap : ∀ p' ≠ p, (w.queue.store p timer).heap p' = w.queue.heap p' := by
    intro p' hne
    exact Function.update_of_ne hne _ _
  refine ⟨h.stores.store_other hS _, ?_, ?_, ?_, h.rest⟩
  · intro p' timer' ht'
    by_cases hne : p' = p
    · exact hne ▸ hb
    · rw [hheap p' hne] at ht'
      exact h.bound p' timer' ht'
  · exact List.nodup_cons.mpr ⟨hout, h.nodup⟩
  · intro p' hp'
    rcases List.mem_cons.mp hp' with rfl | hp'
    · exact ⟨hS, timer, Function.update_self _ _ _⟩
    · have hne : p' ≠ p := by
        rintro rfl
        exact hout hp'
      rw [hheap p' hne]
      exact h.outside p' hp'

theorem addTimerInLoop_consistent (h : w.Consistent S) (hp : p ∈ w.created)
    (ht : w.queue.heap p = some timer) (clock : Timestamp) :
    Consistent { w with
      queue := w.queue.added p timer clock
      created := w.created.erase p
      clock := clock } (Insert.insert p S) := by
  have hsub : (w.created.erase p ++ w.batchPtrs).Sublist (w.created ++ w.batchPtrs) :=
    List.erase_sublist.append_right _
  have hgone : p ∉ w.created.erase p ++ w.batchPtrs := by
    have hd := List.nodup_append.mp h.nodup
    rw [List.mem_append, not_or]
    exact ⟨hd.1.not_mem_erase, fun hm => hd.2.2 p hp p hm rfl⟩
  refine ⟨h.stores.added ht clock, h.bound, h.nodup.sublist hsub, ?_, h.rest⟩
  intro p' hp'
  obtain ⟨hS, hlive⟩ := h.outside p' (hsub.subset hp')
  refine ⟨?_, hlive⟩
  rintro (rfl | hm)
  · exact hgone hp'
  · exact hS hm

theorem erased_consistent (h : w.Consistent S) (hp : p ∈ S) (ht : w.queue.heap p = some timer) :
    Consistent { w with queue := w.queue.erased p timer } (S \ {p}) := by
  have hheap : ∀ p' ≠ p, (w.queue.erased p timer).heap p' = w.queue.heap p' := by
    intro p' hne
    exact Function.update_of_ne hne _ _
  refine ⟨h.stores.erased ht, ?_, h.nodup, ?_, h.rest⟩
  · intro p' timer' ht'
    by_cases hne : p' = p
    · exact hne ▸ h.bound p timer ht
    · exact h.bound p' timer' ((hheap p' hne).symm.trans ht')
  · intro p' hp'
    obtain ⟨hS, hlive⟩ := h.outside p' hp'
    have hne : p' ≠ p := by
      rintro rfl
      exact hS hp
    refine ⟨fun hm => hS hm.1, ?_⟩
    rw [hheap p' hne]
    exact hlive

theorem beginHandleRead_consistent (h : w.Consistent S) (hb : w.batch = none)
    {now readAt : Timestamp} {active : OrderedSet ActiveTimer}
    (hq : (w.queue.opened now readAt active).Stores (w.queue.after S now)) :
    Consistent { w with
      queue := w.queue.opened now readAt active
      batch := some ⟨now, w.queue.timers.below (toLex (now, uintptrMax)),
        w.queue.timers.below (toLex (now, uintptrMax))⟩
      clock := readAt } (w.queue.after S now) := by
  have hcreated : ∀ p ∈ w.created, p ∉ S ∧ ∃ timer, w.queue.heap p = some timer :=
    fun p hp => h.outside p (List.mem_append_left _ hp)
  have hexpired := h.stores.expired_ptr_iff h.bound_stored now
  refine ⟨hq, h.bound, ?_, ?_, ?_⟩
  · apply List.Nodup.append
    · simpa [hb, batchPtrs] using h.nodup
    · exact h.stores.expired_nodup now
    · intro p hp hm
      exact (hcreated p hp).1 ((hexpired p).mp hm).1
  · intro p hp
    rcases List.mem_append.mp hp with hp | hp
    · obtain ⟨hS, hlive⟩ := hcreated p hp
      exact ⟨fun hm => hS hm.1, hlive⟩
    · obtain ⟨-, timer, ht, hle⟩ := (hexpired p).mp hp
      exact ⟨fun hm => absurd (hm.2 timer ht) (not_lt.mpr hle), timer, ht⟩
  · rintro b ⟨rfl⟩
    exact List.Subset.refl _

theorem Consistent.batch_outside (h : w.Consistent S) {b : Batch} (hb : w.batch = some b) :
    (b.expired.map Entry.ptr).Nodup ∧
      ∀ p ∈ b.expired.map Entry.ptr, p ∉ S ∧ ∃ timer, w.queue.heap p = some timer := by
  have hptrs : w.batchPtrs = b.expired.map Entry.ptr := by
    simp [batchPtrs, hb]
  have hnodup := h.nodup
  have hout := h.outside
  rw [hptrs] at hnodup hout
  exact ⟨(List.nodup_append.mp hnodup).2.1, fun p hp => hout p (List.mem_append_right _ hp)⟩

theorem endHandleRead_consistent (h : w.Consistent S) {b : Batch} (hb : w.batch = some b)
    {q : TimerQueue} (hq : q.Stores (S ∪ w.queue.restarted b.expired))
    (hret : Returned { w.queue with callingExpiredTimers := false } q
      (b.expired.map Entry.ptr) b.now) (next clock : Timestamp) :
    Consistent { w with
      queue := q.closed next clock
      batch := none
      clock := clock } (S ∪ w.queue.restarted b.expired) := by
  have hptrs : w.batchPtrs = b.expired.map Entry.ptr := by
    simp [batchPtrs, hb]
  have hnodup := h.nodup
  rw [hptrs] at hnodup
  obtain ⟨hcreated, -, hdisj⟩ := List.nodup_append.mp hnodup
  refine ⟨⟨hq.live, hq.timers, hq.active⟩, ?_, by simpa [batchPtrs] using hcreated, ?_, by simp⟩
  · intro p timer ht
    cases hold : w.queue.heap p with
    | none =>
      have hnone : q.heap p = none := hret.none p hold
      exact absurd (hnone.symm.trans ht) (by simp)
    | some old => exact h.bound p old hold
  · intro p hp
    have hp : p ∈ w.created := by simpa [batchPtrs] using hp
    obtain ⟨hS, hlive⟩ := h.outside p (List.mem_append_left _ hp)
    have hnot : p ∉ b.expired.map Entry.ptr := fun hm => hdisj p hp p hm rfl
    constructor
    · rintro (hm | hm)
      · exact hS hm
      · exact hnot hm.1
    · show ∃ timer, q.heap p = some timer
      rw [hret.heap p hnot]
      exact hlive

theorem Consistent.congr {w' : TimerLoop} (h : w.Consistent S)
    (htimers : w'.queue.timers = w.queue.timers)
    (hactive : w'.queue.activeTimers = w.queue.activeTimers)
    (hheap : w'.queue.heap = w.queue.heap) (hcreated : w'.created = w.created)
    (hbatch : w'.batchPtrs = w.batchPtrs) (hrest : ∀ b ∈ w'.batch, b.rest ⊆ b.expired) :
    w'.Consistent S := by
  refine ⟨⟨?_, ?_, ?_⟩, ?_, ?_, ?_, hrest⟩
  · rw [hheap]
    exact h.stores.live
  · rw [TimersAre, htimers, hheap]
    exact h.stores.timers
  · rw [ActiveAre, hactive, hheap]
    exact h.stores.active
  · rw [hheap]
    exact h.bound
  · rw [hcreated, hbatch]
    exact h.nodup
  · rw [hcreated, hbatch, hheap]
    exact h.outside

theorem runCallback_consistent (h : w.Consistent S) {b : Batch} (hb : w.batch = some b)
    (hrest : b.rest ≠ []) :
    ∃ e rest ran, b.rest = e :: rest ∧
      w.runCallback = .ok { w with batch := some { b with rest := rest }, ran := ran } ∧
      Consistent { w with batch := some { b with rest := rest }, ran := ran } S := by
  obtain ⟨now, expired, rest⟩ := b
  obtain ⟨e, rest, rfl⟩ := List.exists_cons_of_ne_nil hrest
  have hsub : e :: rest ⊆ expired := h.rest _ hb
  have hmem : e.ptr ∈ w.created ++ w.batchPtrs := by
    simp only [batchPtrs, hb, List.mem_append]
    exact .inr (List.mem_map_of_mem (hsub (by simp)))
  obtain ⟨-, timer, ht⟩ := h.outside _ hmem
  refine ⟨e, rest, w.ran ++ [⟨e.ptr, timer.sequence⟩], rfl, ?_, ?_⟩
  · simp [runCallback, hb, deref_ok ht]
  · refine h.congr rfl rfl rfl rfl (by simp [batchPtrs, hb]) ?_
    rintro b ⟨rfl⟩
    exact fun f hf => hsub (by simp [hf])

/-- No step faults, and each leaves the queue with some set of timers. -/
theorem step_consistent (h : w.Consistent S) {a : TimerStep} (ha : w.Allows a) :
    ∃ w', w.step a = .ok w' ∧ ∃ S', w'.Consistent S' := by
  cases a with
  | newTimer p timer => exact ⟨_, rfl, S, newTimer_consistent h ha.1 ha.2.1⟩
  | addTimerInLoop p clock =>
    obtain ⟨hS, timer, ht⟩ := h.outside p (List.mem_append_left _ ha.2)
    have hok := addTimerInLoop_ok h.stores ht hS clock
    exact ⟨_, by simp only [step, hok, ok_bind]; rfl, _, addTimerInLoop_consistent h ha.2 ht clock⟩
  | cancelInLoop id =>
    rcases cancelInLoop_ok h.stores id with ⟨timer, hp, ht, -, hok⟩ | ⟨canceling, hok⟩
    · exact ⟨_, by simp only [step, hok, ok_bind]; rfl, _, erased_consistent h hp ht⟩
    · refine ⟨_, by simp only [step, hok, ok_bind]; rfl, S, ?_⟩
      exact h.congr rfl rfl rfl rfl rfl h.rest
  | beginHandleRead now readAt =>
    obtain ⟨active, hok, hstores⟩ := beginHandleRead_ok h.stores h.bound_stored now readAt
    have hb : w.batch = none := by simpa [Allows] using ha
    exact ⟨_, by simp only [step, hok, ok_bind]; rfl, _, beginHandleRead_consistent h hb hstores⟩
  | runCallback =>
    obtain ⟨b, hb, hrest⟩ := ha
    obtain ⟨-, rest, ran, -, hok, hcons⟩ := runCallback_consistent h hb hrest
    exact ⟨_, hok, S, hcons⟩
  | endHandleRead clock =>
    obtain ⟨b, hmem, -⟩ := ha
    have hb : w.batch = some b := hmem
    obtain ⟨hnodup, hout⟩ := h.batch_outside hb
    obtain ⟨q, next, hok, hstores, hret, -⟩ := endHandleRead_ok h.stores hout hnodup b.now clock
    exact ⟨_, by simp only [step, hb, hok, ok_bind]; rfl, _,
      endHandleRead_consistent h hb hstores hret next clock⟩
  | expire => exact ⟨_, rfl, S, h.congr rfl rfl rfl rfl rfl h.rest⟩

def machine : Machine TimerLoop TimerStep Fault where
  Allows := Allows
  step := step

instance (w : TimerLoop) (a : TimerStep) : Decidable (machine.Allows w a) :=
  inferInstanceAs (Decidable (w.Allows a))

theorem step_of_some_set (w : TimerLoop) (a : TimerStep) (h : ∃ S, w.Consistent S)
    (ha : machine.Allows w a) : ∃ w', machine.step w a = .ok w' ∧ ∃ S, w'.Consistent S := by
  obtain ⟨S, hS⟩ := h
  exact step_consistent hS ha

/-- In every run, whatever the clock shows and whatever the callbacks add and
cancel, nothing asserted fails; the two sets hold the same timers, each under the
expiration it has now, and no timer of the batch being run is in either. -/
theorem timers_and_activeTimers_agree (clock : Timestamp) (steps : List TimerStep)
    (h : machine.Permits (init clock) steps) :
    ∃ w, machine.run (init clock) steps = .ok w ∧
      w.queue.timers.size = w.queue.activeTimers.size ∧
      (∀ when p, toLex (when, p) ∈ w.queue.timers → ∃ timer, w.queue.heap p = some timer ∧
        timer.expiration = when ∧ toLex (p, timer.sequence) ∈ w.queue.activeTimers) ∧
      (∀ p n, toLex (p, n) ∈ w.queue.activeTimers → ∃ timer, w.queue.heap p = some timer ∧
        timer.sequence = n ∧ toLex (timer.expiration, p) ∈ w.queue.timers) ∧
      ∀ b ∈ w.batch, ∀ e ∈ b.expired, (∀ when, toLex (when, e.ptr) ∉ w.queue.timers) ∧
        ∀ n, toLex (e.ptr, n) ∉ w.queue.activeTimers := by
  have hinit : ∃ S, (init clock).Consistent S := ⟨∅, consistent_init clock⟩
  obtain ⟨w, hw, S, hS⟩ := machine.run_safe step_of_some_set hinit h
  refine ⟨w, hw, hS.stores.sizes, ?_, ?_, ?_⟩
  · intro when p hm
    obtain ⟨hp, timer, ht, he⟩ := (hS.stores.timers when p).mp hm
    exact ⟨timer, ht, he, (hS.stores.active p _).mpr ⟨hp, timer, ht, rfl⟩⟩
  · intro p n hm
    obtain ⟨hp, timer, ht, hn⟩ := (hS.stores.active p n).mp hm
    exact ⟨timer, ht, hn, (hS.stores.timers _ p).mpr ⟨hp, timer, ht, rfl⟩⟩
  · intro b hb e he
    have hb : w.batch = some b := hb
    have hmem : e.ptr ∈ w.created ++ w.batchPtrs := by
      simp only [batchPtrs, hb, List.mem_append]
      exact .inr (List.mem_map_of_mem he)
    have hout := (hS.outside _ hmem).1
    exact ⟨fun when hm => hout ((hS.stores.timers when _).mp hm).1,
      fun n hm => hout ((hS.stores.active _ n).mp hm).1⟩

/-- Two timers expire together; the first cancels itself and adds one more, which
the second cancels. The address of the second is then used again. -/
def twoExpire : List TimerStep :=
  [.newTimer 8 (.every 5 10 1), .newTimer 16 (.once 5 2),
    .addTimerInLoop 16 2, .addTimerInLoop 8 1, .cancelInLoop ⟨24, 7⟩,
    .beginHandleRead 6 6, .runCallback, .cancelInLoop ⟨8, 1⟩,
    .newTimer 24 (.once 0 3), .addTimerInLoop 24 6, .runCallback,
    .cancelInLoop ⟨24, 3⟩, .endHandleRead 7, .newTimer 16 (.once 9 4),
    .addTimerInLoop 16 8, .cancelInLoop ⟨16, 2⟩]

theorem timers_and_activeTimers_agree_two_expire :
    ∃ w, machine.run (init 1) twoExpire = .ok w ∧
      w.queue.timers.size = w.queue.activeTimers.size := by
  obtain ⟨w, hw, hsizes, -⟩ := timers_and_activeTimers_agree 1 twoExpire (by decide +kernel)
  exact ⟨w, hw, hsizes⟩

end TimerLoop
end Muduo
