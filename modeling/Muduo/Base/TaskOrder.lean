import Muduo.Base.ThreadPool

/-!
# The order of the tasks of a thread pool

A pool takes tasks from any number of callers and hands them to its workers. Seen from outside
it is a line: tasks enter it at one end and leave it at the other, each to one worker. No worker
sleeps while there is something to do for it, and no caller waits while there is room.
-/

namespace Muduo

open Foundations

/-- The tasks that were accepted, the ones that were handed to a worker, and those in between. -/
structure TaskLine (n : ℕ) (Task : Type) where
  accepted : List Task
  handed : List (Fin n × Task)
  pending : List Task

namespace TaskLine

variable {n : ℕ} {τ Task : Type}

def empty : TaskLine n Task := ⟨[], [], []⟩

variable (l : TaskLine n Task)

/-- A task that finds no room waits outside. -/
def accept (maxQueueSize : ℕ) (task : Task) : TaskLine n Task :=
  if n = 0 ∨ 0 < maxQueueSize ∧ maxQueueSize ≤ l.pending.length then l
  else { l with accepted := l.accepted ++ [task], pending := l.pending ++ [task] }

def hand (i : Fin n) : TaskLine n Task :=
  match l.pending with
  | [] => l
  | task :: rest => { l with handed := l.handed ++ [(i, task)], pending := rest }

def next (maxQueueSize : ℕ) : PoolStep n τ Task → TaskLine n Task
  | .run _ task _ | .resumeRun _ task _ => l.accept maxQueueSize task
  | .take i _ | .resumeTake i _ => l.hand i
  | .stop | .test _ | .finish _ | .wakeWorkers _ | .wakeCallers _ => l

def lastOf (i : Fin n) : Option (Fin n × Task) := (l.handed.filter (·.1 = i)).getLast?

end TaskLine

namespace ThreadPool

variable {n : ℕ} {τ Task : Type}

/-- The pool against the line. `threads` of a condition are those that are in its `wait`. -/
structure Serves (m : ℕ) (w : ThreadPool n τ Task) (l : TaskLine n Task) : Prop where
  unchanged : w.maxQueueSize = m
  queue : w.queue = l.pending
  order : l.handed.map Prod.snd ++ l.pending = l.accepted
  bound : 0 < m → w.queue.length ≤ m
  given : ∀ i task, w.worker i = .executing (some task) → l.lastOf i = some (i, task)
  stopped : w.running = false → w.notEmpty.waiting = []
  roomy : m = 0 ∨ n = 0 → w.notFull.waiting = []
  tasks : w.notEmpty.Served w.queue.length
  places : w.notFull.Served (m - w.queue.length)
  nodup : w.notEmpty.threads.Nodup
  asleep : ∀ i, i ∈ w.notEmpty.threads ↔ w.worker i = .blocked

theorem serves_init (m : ℕ) : (init m : ThreadPool n τ Task).Serves m .empty where
  unchanged := rfl
  queue := rfl
  order := rfl
  bound _ := Nat.zero_le m
  given i task h := by cases h
  stopped h := by cases h
  roomy _ := rfl
  tasks := Condition.served_init _
  places := Condition.served_init _
  nodup := List.nodup_nil
  asleep i := by simp [init, Condition.init, Condition.threads]

variable {m : ℕ} {w w' : ThreadPool n τ Task} {l : TaskLine n Task} {i : Fin n}

theorem isFull_eq_true (h : w.Serves m l) :
    w.isFull = true ↔ 0 < m ∧ m ≤ l.pending.length := by
  simp [isFull, h.unchanged, h.queue]

/-- The critical section of `run`, entered by a caller that has been waiting with one free place
less than there is. -/
theorem Serves.run (h : w.Serves m l) {notFull : Condition (τ × Task)}
    (hroomy : m = 0 ∨ n = 0 → notFull.waiting = [])
    (hplaces : notFull.Served (m - w.queue.length - 1)) (t : τ) (task : Task)
    {p : Fin n → Bool} (hp : w.notEmpty.Signals p) :
    ∃ w', { w with notFull := notFull }.run t task p = .ok w' ∧ w'.Serves m (l.accept m task) := by
  have hfull_eq : ({ w with notFull := notFull } : ThreadPool n τ Task).isFull = w.isFull := rfl
  rw [ThreadPool.run, hfull_eq, TaskLine.accept]
  by_cases hn : n = 0
  · -- without threads nobody waits for room
    rw [if_pos hn, if_pos (.inl hn)]
    exact ⟨_, rfl, { h with
      roomy := hroomy
      places := fun hwaiting => absurd (hroomy (.inr hn)) hwaiting }⟩
  · by_cases hfull : w.isFull = true
    · have hroom := (isFull_eq_true h).mp hfull
      rw [if_neg hn, if_pos hfull, if_pos (.inr hroom)]
      refine ⟨_, rfl, { h with
        roomy := fun hm => absurd hm (not_or.mpr ⟨hroom.1.ne', hn⟩)
        places := ?_ }⟩
      have hnone : m - w.queue.length = 0 := by
        rw [h.queue]
        omega
      rw [hnone]
      exact Condition.served_zero
    · have hroom := mt (isFull_eq_true h).mpr hfull
      have hlength : w.queue.length = l.pending.length := congrArg _ h.queue
      rw [if_neg hn, if_neg hfull, if_neg (not_or.mpr ⟨hn, hroom⟩),
        assertThat_pos (Bool.eq_false_iff.mpr hfull)]
      refine ⟨_, rfl, h.unchanged, ?_, ?_, fun hm => ?_, h.given, fun hrunning => ?_, hroomy, ?_,
        ?_, ?_, fun j => ?_⟩
      · simp [h.queue]
      · simp [← h.order]
      · simp only [List.length_append, List.length_singleton]
        omega
      · simp [Condition.wake, h.stopped hrunning]
      · simpa using h.tasks.notify hp
      · simpa [Nat.sub_sub] using hplaces
      · exact (Condition.threads_wake p).nodup_iff.mpr h.nodup
      · rw [(Condition.threads_wake p).mem_iff]
        exact h.asleep j

theorem setWorker_worker (phase : WorkerPhase Task) (j : Fin n) :
    (w.setWorker i phase).worker j = if j = i then phase else w.worker j :=
  Function.update_apply w.worker i phase j

theorem asleep_setWorker {c : Condition (Fin n)} (hself : i ∉ c.threads)
    (hasleep : ∀ j, j ≠ i → (j ∈ c.threads ↔ w.worker j = .blocked)) {phase : WorkerPhase Task}
    (hphase : phase ≠ .blocked) (j : Fin n) :
    j ∈ c.threads ↔ (w.setWorker i phase).worker j = .blocked := by
  rw [setWorker_worker]
  split_ifs with heq
  · exact iff_of_false (heq ▸ hself) hphase
  · exact hasleep j heq

/-- A worker that is not asleep goes on to a phase in which it is not asleep either. -/
theorem Serves.setWorker (h : w.Serves m l) (hawake : w.worker i ≠ .blocked)
    {phase : WorkerPhase Task} (hphase : phase ≠ .blocked)
    (hgiven : ∀ task, phase ≠ .executing (some task)) : (w.setWorker i phase).Serves m l := by
  have hself : i ∉ w.notEmpty.threads := mt (h.asleep i).mp hawake
  refine { h with
    given := fun j task hj => ?_
    asleep := asleep_setWorker hself (fun j _ => h.asleep j) hphase }
  rw [setWorker_worker] at hj
  split_ifs at hj
  · exact absurd hj (hgiven task)
  · exact h.given j task hj

theorem lastOf_hand (task : Task) (rest : List Task) (j : Fin n) :
    TaskLine.lastOf { l with handed := l.handed ++ [(i, task)], pending := rest } j =
      if j = i then some (i, task) else l.lastOf j := by
  rw [TaskLine.lastOf, TaskLine.lastOf, List.filter_append]
  by_cases heq : j = i
  · simp [heq]
  · simp [heq, Ne.symm heq]

section Take

variable {p : τ × Task → Bool} {task : Task} {rest : List Task}

theorem take_sleep (hqueue : w.queue = []) (hrunning : w.running = true) :
    w.take i p = { w.setWorker i .blocked with notEmpty := w.notEmpty.wait i } := by
  rw [ThreadPool.take, hqueue]
  exact if_pos hrunning

theorem take_none (hqueue : w.queue = []) (hrunning : ¬w.running = true) :
    w.take i p = w.setWorker i (.executing none) := by
  rw [ThreadPool.take, hqueue]
  exact if_neg hrunning

theorem take_cons (hqueue : w.queue = task :: rest) :
    w.take i p = { w.setWorker i (.executing (some task)) with
      queue := rest
      notFull := if 0 < w.maxQueueSize then w.notFull.wake p else w.notFull } := by
  rw [ThreadPool.take, hqueue]
  show (if 0 < w.maxQueueSize then _ else _) = _
  split_ifs <;> rfl

end Take

/-- The critical section of `take`, entered with one task less than there is by a worker that has
been asleep. -/
theorem Serves.take (h : w.Serves m l) {notEmpty : Condition (Fin n)}
    (hstopped : w.running = false → notEmpty.waiting = [])
    (htasks : notEmpty.Served (w.queue.length - 1)) (hnodup : notEmpty.threads.Nodup)
    (hself : i ∉ notEmpty.threads)
    (hasleep : ∀ j, j ≠ i → (j ∈ notEmpty.threads ↔ w.worker j = .blocked))
    {p : τ × Task → Bool} (hp : w.notFull.Signals p) :
    ({ w with notEmpty := notEmpty }.take i p).Serves m (l.hand i) := by
  by_cases hqueue : w.queue = []
  · have hhand : l.hand i = l := by rw [TaskLine.hand, ← h.queue, hqueue]
    have hserved : ∀ c : Condition (Fin n), c.Served w.queue.length := fun c => by
      rw [hqueue]
      exact Condition.served_zero
    rw [hhand]
    by_cases hrunning : w.running = true
    · rw [take_sleep (w := { w with notEmpty := notEmpty }) hqueue hrunning]
      refine { h with
        given := fun j task hj => ?_
        stopped := fun hstop => absurd hstop (by simp [ThreadPool.setWorker, hrunning])
        tasks := hserved _
        nodup := (Condition.threads_wait i).nodup_iff.mpr (List.nodup_cons.mpr ⟨hself, hnodup⟩)
        asleep := fun j => ?_ }
      · rw [setWorker_worker] at hj
        split_ifs at hj
        exact h.given j task hj
      · rw [(Condition.threads_wait i).mem_iff, setWorker_worker, List.mem_cons]
        split_ifs with heq
        · simp [heq]
        · simp [heq, hasleep j heq]
    · rw [take_none (w := { w with notEmpty := notEmpty }) hqueue hrunning]
      refine { h with
        given := fun j task hj => ?_
        stopped := hstopped
        tasks := hserved _
        nodup := hnodup
        asleep := asleep_setWorker hself hasleep (by simp) }
      rw [setWorker_worker] at hj
      split_ifs at hj
      · cases hj
      · exact h.given j task hj
  · obtain ⟨task, rest, hqueue⟩ := List.exists_cons_of_ne_nil hqueue
    have hpending : l.pending = task :: rest := h.queue.symm.trans hqueue
    have hhand : l.hand i =
        { l with handed := l.handed ++ [(i, task)], pending := rest } := by
      rw [TaskLine.hand, hpending]
    have hbound := h.bound
    have hplaces := h.places
    rw [hqueue, List.length_cons] at hbound hplaces htasks
    rw [hhand, take_cons (w := { w with notEmpty := notEmpty }) hqueue]
    refine ⟨h.unchanged, rfl, ?_, fun hm => Nat.le_of_succ_le (hbound hm), fun j task' hj => ?_,
      hstopped, fun hm => ?_, htasks, ?_, hnodup, asleep_setWorker hself hasleep (by simp)⟩
    · rw [← h.order, hpending]
      simp
    · rw [setWorker_worker] at hj
      rw [lastOf_hand]
      split_ifs at hj with heq
      · obtain rfl : task = task' := by simpa using hj
        rw [if_pos heq, heq]
      · rw [if_neg heq]
        exact h.given j task' hj
    · show (if 0 < w.maxQueueSize then w.notFull.wake p else w.notFull).waiting = []
      split_ifs
      · simp [Condition.wake, h.roomy hm]
      · exact h.roomy hm
    · show (if 0 < w.maxQueueSize then w.notFull.wake p else w.notFull).Served (m - rest.length)
      rw [h.unchanged]
      split_ifs with hm
      · have hsupply : m - rest.length = m - (rest.length + 1) + 1 := by
          have := hbound hm
          omega
        rw [hsupply]
        exact hplaces.notify hp
      · exact hplaces.mono (by omega)

section Runs

variable [DecidableEq τ] [DecidableEq Task]

theorem Serves.step (h : w.Serves m l) {a : PoolStep n τ Task} (ha : w.Allows a) :
    ∃ w', w.step a = .ok w' ∧ w'.Serves m (l.next m a) := by
  cases a with
  | run t task p => exact h.run h.roomy (h.places.mono (Nat.sub_le _ _)) t task ha.2
  | resumeRun t task p =>
    have hroomy : m = 0 ∨ n = 0 → (w.notFull.resume (t, task)).waiting = [] := h.roomy
    exact h.run hroomy (h.places.resume ha.1) t task ha.2
  | stop =>
    refine ⟨_, rfl, { h with
      stopped := fun _ => rfl
      tasks := fun hwaiting => absurd rfl hwaiting
      nodup := Condition.threads_notifyAll.nodup_iff.mpr h.nodup
      asleep := fun i => Condition.threads_notifyAll.mem_iff.trans (h.asleep i) }⟩
  | test i =>
    have hhead : w.worker i = .atHead := ha
    refine ⟨_, rfl, h.setWorker (by simp [hhead]) ?_ fun task => ?_⟩
    · split_ifs <;> simp
    · split_ifs <;> simp
  | take i p =>
    have htaking : w.worker i = .taking := ha.1
    have hself : i ∉ w.notEmpty.threads := mt (h.asleep i).mp (by simp [htaking])
    exact ⟨_, rfl, h.take h.stopped (h.tasks.mono (Nat.sub_le _ _)) h.nodup hself
      (fun j _ => h.asleep j) ha.2⟩
  | resumeTake i p =>
    obtain ⟨hwoken, hp⟩ := ha
    have hthreads := Condition.threads_resume h.nodup hwoken
    have hstopped : w.running = false → (w.notEmpty.resume i).waiting = [] := h.stopped
    refine ⟨_, rfl, h.take hstopped (h.tasks.resume hwoken) ?_ ?_ (fun j hj => ?_) hp⟩
    · rw [hthreads]
      exact h.nodup.erase i
    · rw [hthreads]
      exact h.nodup.not_mem_erase
    · rw [hthreads, List.mem_erase_of_ne hj]
      exact h.asleep j
  | finish i =>
    obtain ⟨task, htask⟩ := ha
    exact ⟨_, rfl, h.setWorker (by simp [htask]) (by simp) (by simp)⟩
  | wakeWorkers p =>
    refine ⟨_, rfl, { h with
      stopped := fun hrunning => by simp [Condition.wake, h.stopped hrunning]
      tasks := h.tasks.wake p
      nodup := (Condition.threads_wake p).nodup_iff.mpr h.nodup
      asleep := fun i => (Condition.threads_wake p).mem_iff.trans (h.asleep i) }⟩
  | wakeCallers p =>
    exact ⟨_, rfl, { h with
      roomy := fun hm => by simp [Condition.wake, h.roomy hm]
      places := h.places.wake p }⟩

end Runs

end ThreadPool
end Muduo
