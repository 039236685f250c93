import Muduo.Foundations.Machine
import Muduo.Foundations.Monitor

/-!
# Stopping a thread pool

`run` waits on `notFull_` while the queue has its maximal size, and only `take`
signals that condition. `stop` clears `running_` and wakes the workers; a worker looks
at `running_` before it calls `take` again, so it leaves without making room in the
queue. A caller that waits for room then waits for good.
-/

namespace Muduo

open Foundations

/-- Where a worker is in `runInThread`. -/
inductive WorkerPhase (Task : Type) where
  /-- at `while (running_)` -/
  | atHead
  /-- behind the test, in front of the mutex in `take` -/
  | taking
  /-- in `notEmpty_.wait()`, or woken and without the mutex -/
  | blocked
  /-- behind `take`, which may have returned no task -/
  | executing (task : Option Task)
  | left
  deriving DecidableEq, Repr

/-- A pool that was started with `n` threads; `τ` are the threads that call it. -/
structure ThreadPool (n : ℕ) (τ Task : Type) where
  maxQueueSize : ℕ
  queue : List Task
  running : Bool
  worker : Fin n → WorkerPhase Task
  notEmpty : Condition (Fin n)
  /-- a caller waits with its task -/
  notFull : Condition (τ × Task)
  /-- `stop` was called -/
  stopped : Bool

/-- In each step `p` tells which waiters a signal wakes, if one is sent. -/
inductive PoolStep (n : ℕ) (τ Task : Type) where
  | run (t : τ) (task : Task) (p : Fin n → Bool)
  | resumeRun (t : τ) (task : Task) (p : Fin n → Bool)
  | stop
  /-- a worker tests `running_` -/
  | test (i : Fin n)
  | take (i : Fin n) (p : τ × Task → Bool)
  | resumeTake (i : Fin n) (p : τ × Task → Bool)
  /-- a worker's task returns -/
  | finish (i : Fin n)
  /-- waiters wake up without a signal -/
  | wakeWorkers (p : Fin n → Bool)
  | wakeCallers (p : τ × Task → Bool)

namespace ThreadPool

variable {n : ℕ} {τ Task : Type}

/-- Behind `start`. -/
def init (maxQueueSize : ℕ) : ThreadPool n τ Task where
  maxQueueSize := maxQueueSize
  queue := []
  running := true
  worker _ := .atHead
  notEmpty := .init
  notFull := .init
  stopped := false

variable (w : ThreadPool n τ Task)

def isFull : Bool := 0 < w.maxQueueSize && w.maxQueueSize ≤ w.queue.length

def setWorker (i : Fin n) (phase : WorkerPhase Task) : ThreadPool n τ Task :=
  { w with worker := Function.update w.worker i phase }

/-- `run` with the mutex, up to its `wait` or its return. Without threads the task is
run by the caller. -/
def run (t : τ) (task : Task) (p : Fin n → Bool) : Except Fault (ThreadPool n τ Task) :=
  if n = 0 then .ok w
  else if w.isFull then .ok { w with notFull := w.notFull.wait (t, task) }
  else do
    assertThat (w.isFull = false)
    return { w with queue := w.queue ++ [task], notEmpty := w.notEmpty.wake p }

/-- `take` with the mutex, up to its `wait` or its return. -/
def take (i : Fin n) (p : τ × Task → Bool) : ThreadPool n τ Task :=
  match w.queue with
  | [] =>
    if w.running then { w.setWorker i .blocked with notEmpty := w.notEmpty.wait i }
    else w.setWorker i (.executing none)
  | task :: rest =>
    let w := { w.setWorker i (.executing (some task)) with queue := rest }
    if 0 < w.maxQueueSize then { w with notFull := w.notFull.wake p } else w

def stop : ThreadPool n τ Task :=
  { w with running := false, notEmpty := w.notEmpty.notifyAll, stopped := true }

section Threads

variable [DecidableEq τ] [DecidableEq Task]

def step : PoolStep n τ Task → Except Fault (ThreadPool n τ Task)
  | .run t task p => w.run t task p
  | .resumeRun t task p => { w with notFull := w.notFull.resume (t, task) }.run t task p
  | .stop => return w.stop
  | .test i => return w.setWorker i (if w.running then .taking else .left)
  | .take i p => return w.take i p
  | .resumeTake i p => return { w with notEmpty := w.notEmpty.resume i }.take i p
  | .finish i => return w.setWorker i .atHead
  | .wakeWorkers p => return { w with notEmpty := w.notEmpty.wake p }
  | .wakeCallers p => return { w with notFull := w.notFull.wake p }

def Allows : PoolStep n τ Task → Prop
  | .run t _ p => t ∉ (w.notFull.waiting ++ w.notFull.woken).map Prod.fst ∧ w.notEmpty.Signals p
  | .resumeRun t task p => (t, task) ∈ w.notFull.woken ∧ w.notEmpty.Signals p
  | .stop => True
  | .test i => w.worker i = .atHead
  | .take i p => w.worker i = .taking ∧ w.notFull.Signals p
  | .resumeTake i p => i ∈ w.notEmpty.woken ∧ w.notFull.Signals p
  | .finish i => ∃ task, w.worker i = .executing task
  | .wakeWorkers _ | .wakeCallers _ => True

instance : (phase : WorkerPhase Task) → Decidable (∃ task, phase = .executing task)
  | .executing task => .isTrue ⟨task, rfl⟩
  | .atHead | .taking | .blocked | .left => .isFalse (by simp)

instance : (a : PoolStep n τ Task) → Decidable (w.Allows a)
  | .run t _ p => inferInstanceAs (Decidable
      (t ∉ (w.notFull.waiting ++ w.notFull.woken).map Prod.fst ∧ w.notEmpty.Signals p))
  | .resumeRun t task p =>
    inferInstanceAs (Decidable ((t, task) ∈ w.notFull.woken ∧ w.notEmpty.Signals p))
  | .test i => inferInstanceAs (Decidable (w.worker i = .atHead))
  | .take i p => inferInstanceAs (Decidable (w.worker i = .taking ∧ w.notFull.Signals p))
  | .resumeTake i p => inferInstanceAs (Decidable (i ∈ w.notEmpty.woken ∧ w.notFull.Signals p))
  | .finish i => inferInstanceAs (Decidable (∃ task, w.worker i = .executing task))
  | .stop | .wakeWorkers _ | .wakeCallers _ => .isTrue trivial

def machine : Machine (ThreadPool n τ Task) (PoolStep n τ Task) Fault where
  Allows w a := w.Allows a
  step w a := w.step a

instance (a : PoolStep n τ Task) : Decidable (machine.Allows w a) :=
  inferInstanceAs (Decidable (w.Allows a))

end Threads

/-- The pool was stopped, all workers have left, and a caller waits for room without
having been woken. -/
def Stranded : Prop :=
  w.stopped = true ∧ (∀ i, w.worker i = .left) ∧ w.notFull.waiting ≠ []

instance [DecidableEq τ] [DecidableEq Task] : Decidable w.Stranded :=
  inferInstanceAs (Decidable (_ ∧ _))

/-- The queue is unbounded or there are no threads, and nobody waits for room. -/
structure Roomy (w : ThreadPool n τ Task) : Prop where
  bound : w.maxQueueSize = 0 ∨ n = 0
  waiting : w.notFull.waiting = []
  woken : w.notFull.woken = []

variable {w} {w' : ThreadPool n τ Task}

theorem Roomy.run (h : w.Roomy) {t : τ} {task : Task} {p : Fin n → Bool}
    (hw' : w.run t task p = .ok w') : w'.Roomy := by
  unfold ThreadPool.run at hw'
  split_ifs at hw' with hthreads hfull
  · cases hw'
    exact h
  · have hbound : w.maxQueueSize = 0 := h.bound.resolve_right hthreads
    simp [isFull, hbound] at hfull
  · obtain ⟨_, -, hreturn⟩ := bind_eq_ok.mp hw'
    cases hreturn
    exact ⟨h.bound, h.waiting, h.woken⟩

theorem Roomy.take (h : w.Roomy) (i : Fin n) (p : τ × Task → Bool) : (w.take i p).Roomy := by
  unfold ThreadPool.take
  split
  · split_ifs
    · exact ⟨h.bound, h.waiting, h.woken⟩
    · exact ⟨h.bound, h.waiting, h.woken⟩
  · dsimp only
    split_ifs
    · exact ⟨h.bound, by simp [Condition.wake, setWorker, h.waiting],
        by simp [Condition.wake, setWorker, h.waiting, h.woken]⟩
    · exact ⟨h.bound, h.waiting, h.woken⟩

theorem Roomy.step [DecidableEq τ] [DecidableEq Task] (h : w.Roomy) {a : PoolStep n τ Task}
    (ha : w.Allows a) (hw' : w.step a = .ok w') : w'.Roomy := by
  cases a with
  | run t task p => exact h.run hw'
  | resumeRun t task p =>
    obtain ⟨hwoken, -⟩ := ha
    simp [h.woken] at hwoken
  | take i p =>
    cases hw'
    exact h.take i p
  | resumeTake i p =>
    cases hw'
    have hresume : Roomy { w with notEmpty := w.notEmpty.resume i } := ⟨h.bound, h.waiting, h.woken⟩
    exact hresume.take i p
  | wakeCallers p =>
    cases hw'
    exact ⟨h.bound, by simp [Condition.wake, h.waiting],
      by simp [Condition.wake, h.waiting, h.woken]⟩
  | _ =>
    cases hw'
    exact ⟨h.bound, h.waiting, h.woken⟩

section Busy

variable (m : ℕ) (t : τ) (task : Task)

/-- The first `k` workers have a task, the others have just started. -/
def busy (k : ℕ) (queue : List Task) : ThreadPool n τ Task where
  maxQueueSize := m
  queue := queue
  running := true
  worker i := if i.val < k then .executing (some task) else .atHead
  notEmpty := .init
  notFull := .init
  stopped := false

/-- All have a task, the queue is full and a caller waits. -/
def crowded : ThreadPool n τ Task :=
  { (busy m task n (List.replicate m task) : ThreadPool n τ Task) with
    notFull := Condition.init.wait (t, task) }

/-- The same pool, behind `stop`; the first `k` workers have left. -/
def leaving (k : ℕ) : ThreadPool n τ Task where
  maxQueueSize := m
  queue := List.replicate m task
  running := false
  worker i := if i.val < k then .left else .executing (some task)
  notEmpty := .init
  notFull := Condition.init.wait (t, task)
  stopped := true

theorem update_below {α : Type} {k : ℕ} (hk : k < n) (a b : α) :
    Function.update (fun i : Fin n => if i.val < k then a else b) ⟨k, hk⟩ a =
      fun i => if i.val < k + 1 then a else b := by
  funext i
  by_cases hi : i = ⟨k, hk⟩
  · simp [hi]
  · have hne : i.val ≠ k := fun h => hi (Fin.ext h)
    rw [Function.update_of_ne hi]
    simp only [Nat.lt_succ_iff_lt_or_eq, hne, or_false]

variable [DecidableEq τ] [DecidableEq Task] {m} {k : ℕ}

include t

theorem busy_run (hn : 0 < n) {queue : List Task} (hqueue : queue.length < m) :
    machine.Leads (busy m task k queue : ThreadPool n τ Task)
      (busy m task k (queue ++ [task])) := by
  have hallows : machine.Allows (busy m task k queue : ThreadPool n τ Task)
      (.run t task fun _ => true) :=
    ⟨by simp [busy, Condition.init], fun h => absurd rfl h⟩
  have hfull : (busy m task k queue : ThreadPool n τ Task).isFull = false := by
    have hroom : ¬ m ≤ queue.length := by omega
    simp [isFull, busy, hroom]
  have hrun : machine.step (busy m task k queue : ThreadPool n τ Task)
      (.run t task fun _ => true) = .ok (busy m task k (queue ++ [task])) := by
    show ThreadPool.run _ _ _ _ = _
    rw [ThreadPool.run, if_neg hn.ne', hfull, assertThat_pos rfl]
    rfl
  exact .head hallows hrun (.refl _ _)

theorem busy_takes (hm : 0 < m) (hk : k < n) :
    machine.Leads (busy m task k [] : ThreadPool n τ Task) (busy m task (k + 1) []) := by
  have htest : machine.step (busy m task k [task] : ThreadPool n τ Task) (.test ⟨k, hk⟩) =
      .ok ((busy m task k [task]).setWorker ⟨k, hk⟩ .taking) := rfl
  have htake : machine.step ((busy m task k [task] : ThreadPool n τ Task).setWorker ⟨k, hk⟩ .taking)
      (.take ⟨k, hk⟩ fun _ => true) = .ok (busy m task (k + 1) []) := by
    simp [machine, step, ThreadPool.take, busy, setWorker, hm, Condition.wake, Condition.init,
      update_below hk]
  refine (busy_run t task (by omega) hm).trans (.head ?_ htest (.head ?_ htake (.refl _ _)))
  · simp [machine, Allows, busy]
  · exact ⟨by simp [setWorker], fun h => absurd rfl h⟩

theorem busy_of_init (hm : 0 < m) (hk : k ≤ n) :
    machine.Leads (init m : ThreadPool n τ Task) (busy m task k []) := by
  induction k with
  | zero =>
    have hstart : (init m : ThreadPool n τ Task) = busy m task 0 [] := by simp [init, busy]
    rw [hstart]
    exact .refl _ _
  | succ k ih => exact (ih (by omega)).trans (busy_takes t task hm hk)

theorem busy_fills (hn : 0 < n) {j : ℕ} (hj : j ≤ m) :
    machine.Leads (busy m task n [] : ThreadPool n τ Task)
      (busy m task n (List.replicate j task)) := by
  induction j with
  | zero => exact .refl _ _
  | succ j ih =>
    rw [List.replicate_succ']
    exact (ih (by omega)).trans (busy_run t task hn (by simpa using hj))

theorem busy_crowds (hn : 0 < n) (hm : 0 < m) :
    machine.Leads (busy m task n (List.replicate m task) : ThreadPool n τ Task)
      (crowded m t task) := by
  have hallows : machine.Allows (busy m task n (List.replicate m task) : ThreadPool n τ Task)
      (.run t task fun _ => true) :=
    ⟨by simp [busy, Condition.init], fun h => absurd rfl h⟩
  have hfull : (busy m task n (List.replicate m task) : ThreadPool n τ Task).isFull = true := by
    simp [isFull, busy, hm]
  have hrun : machine.step (busy m task n (List.replicate m task) : ThreadPool n τ Task)
      (.run t task fun _ => true) = .ok (crowded m t task) := by
    show ThreadPool.run _ _ _ _ = _
    rw [ThreadPool.run, if_neg hn.ne', if_pos hfull]
    rfl
  exact .head hallows hrun (.refl _ _)

theorem crowded_stops :
    machine.Leads (crowded m t task : ThreadPool n τ Task) (leaving m t task 0) := by
  have hallows : machine.Allows (crowded m t task : ThreadPool n τ Task) .stop := trivial
  have hstop : machine.step (crowded m t task : ThreadPool n τ Task) .stop =
      .ok (leaving m t task 0) := by
    simp [machine, step, stop, crowded, leaving, busy, Condition.notifyAll, Condition.init]
  exact .head hallows hstop (.refl _ _)

theorem leaving_leaves (hk : k < n) :
    machine.Leads (leaving m t task k : ThreadPool n τ Task) (leaving m t task (k + 1)) := by
  have hfinish : machine.step (leaving m t task k : ThreadPool n τ Task) (.finish ⟨k, hk⟩) =
      .ok ((leaving m t task k).setWorker ⟨k, hk⟩ .atHead) := rfl
  have htest : machine.step ((leaving m t task k : ThreadPool n τ Task).setWorker ⟨k, hk⟩ .atHead)
      (.test ⟨k, hk⟩) = .ok (leaving m t task (k + 1)) := by
    simp [machine, step, leaving, setWorker, update_below hk]
  refine .head ?_ hfinish (.head ?_ htest (.refl _ _))
  · exact ⟨some task, by simp [leaving]⟩
  · simp [machine, Allows, setWorker]

theorem leaving_all (hk : k ≤ n) :
    machine.Leads (leaving m t task 0 : ThreadPool n τ Task) (leaving m t task k) := by
  induction k with
  | zero => exact .refl _ _
  | succ k ih => exact (ih (by omega)).trans (leaving_leaves t task hk)

theorem leaving_of_init (hn : 0 < n) (hm : 0 < m) :
    machine.Leads (init m : ThreadPool n τ Task) (leaving m t task n) := by
  have hbusy := (busy_of_init t task hm (le_refl n)).trans (busy_fills t task hn (le_refl m))
  have hcrowded := hbusy.trans (busy_crowds t task hn hm)
  exact (hcrowded.trans (crowded_stops t task)).trans (leaving_all t task (le_refl n))

end Busy

theorem leaving_stranded (m : ℕ) (t : τ) (task : Task) :
    (leaving m t task n : ThreadPool n τ Task).Stranded :=
  ⟨rfl, fun i => by simp [leaving], by simp [leaving, Condition.wait]⟩

/-- In a pool whose queue is bounded and that has workers, a caller can be left waiting
behind `stop`: all workers have a task, the queue is full, and they leave when they have
finished. In any other pool that does not happen. -/
theorem no_caller_is_stranded_iff [DecidableEq τ] [DecidableEq Task] [Inhabited τ]
    [Inhabited Task] (n maxQueueSize : ℕ) :
    (∀ w : ThreadPool n τ Task, machine.Leads (init maxQueueSize) w → ¬ w.Stranded) ↔
      maxQueueSize = 0 ∨ n = 0 := by
  constructor
  · intro h
    by_contra hne
    push Not at hne
    have hm : 0 < maxQueueSize := Nat.pos_of_ne_zero hne.1
    have hn : 0 < n := Nat.pos_of_ne_zero hne.2
    exact h _ (leaving_of_init default default hn hm) (leaving_stranded _ _ _)
  · rintro hbound w ⟨steps, hp, hrun⟩ ⟨-, -, hwaiting⟩
    have hkeeps : ∀ (w : ThreadPool n τ Task) a w', w.Roomy → machine.Allows w a →
        machine.step w a = .ok w' → w'.Roomy := fun _ _ _ hr ha hw' => hr.step ha hw'
    exact hwaiting (machine.run_keeps hkeeps ⟨hbound, rfl, rfl⟩ hp hrun).waiting

/-- One worker and a queue of one place. The worker has task 1, task 2 is in the queue
and caller 3 waits with task 3; behind `stop` the worker returns from task 1 and leaves. -/
def strandedSteps : List (PoolStep 1 ℕ ℕ) :=
  [.run 1 1 (fun _ => true), .test 0, .take 0 (fun _ => true), .run 2 2 (fun _ => true),
    .run 3 3 (fun _ => true), .stop, .finish 0, .test 0]

theorem caller_waits_behind_stop :
    machine.Permits (init 1) strandedSteps ∧
      ∃ w, machine.run (init 1) strandedSteps = .ok w ∧ w.Stranded ∧ w.notFull.woken = [] := by
  refine ⟨by decide +kernel, ?_⟩
  have hend : (machine.run (init 1) strandedSteps).toOption.map
      (fun w => decide (w.Stranded ∧ w.notFull.woken = [])) = some true := by decide +kernel
  obtain ⟨w, hw, hstranded⟩ := exists_ok_of_map hend
  exact ⟨w, hw, of_decide_eq_true hstranded⟩

end ThreadPool
end Muduo
