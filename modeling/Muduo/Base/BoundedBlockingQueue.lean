import Muduo.Foundations.Machine
import Muduo.Foundations.Monitor

/-!
# A bounded queue between threads

`put` waits while the queue is full and `take` while it is empty, each on a condition
of its own, and each signals the other. The mutex makes what happens between its
acquisition and the next `wait` or the return one step. A thread that was woken has to
get the mutex again, and another one may come before it, so it looks again.
-/

namespace Muduo

open Foundations

/-- `τ` are the threads. The record keeps what was put and what was taken, in order. -/
structure BoundedBlockingQueue (τ α : Type) where
  capacity : ℕ
  queue : List α
  notEmpty : Condition τ
  /-- a producer waits with its value -/
  notFull : Condition (τ × α)
  received : List α
  delivered : List α

/-- In each step `p` tells which waiters a signal wakes, if one is sent. -/
inductive QueueStep (τ α : Type) where
  | put (t : τ) (x : α) (p : τ → Bool)
  | resumePut (t : τ) (x : α) (p : τ → Bool)
  | take (t : τ) (p : τ × α → Bool)
  | resumeTake (t : τ) (p : τ × α → Bool)
  /-- waiters wake up without a signal -/
  | wakeConsumers (p : τ → Bool)
  | wakeProducers (p : τ × α → Bool)

/-- The queue as a line, whoever waits beside it. -/
structure QueueLine (α : Type) where
  received : List α
  delivered : List α
  queue : List α

def QueueLine.next {τ α : Type} (capacity : ℕ) (l : QueueLine α) : QueueStep τ α → QueueLine α
  | .put _ x _ | .resumePut _ x _ =>
    if l.queue.length = capacity then l
    else { l with received := l.received ++ [x], queue := l.queue ++ [x] }
  | .take _ _ | .resumeTake _ _ =>
    match l.queue with
    | [] => l
    | front :: rest => { l with delivered := l.delivered ++ [front], queue := rest }
  | .wakeConsumers _ | .wakeProducers _ => l

def QueueLine.after {τ α : Type} (capacity : ℕ) (steps : List (QueueStep τ α)) : QueueLine α :=
  steps.foldl (next capacity) ⟨[], [], []⟩

namespace BoundedBlockingQueue

variable {τ α : Type}

def init (capacity : ℕ) : BoundedBlockingQueue τ α where
  capacity := capacity
  queue := []
  notEmpty := .init
  notFull := .init
  received := []
  delivered := []

variable (q : BoundedBlockingQueue τ α)

def full : Bool := q.queue.length = q.capacity

/-- `put` with the mutex, up to its `wait` or its return. -/
def put (t : τ) (x : α) (p : τ → Bool) : Except Fault (BoundedBlockingQueue τ α) :=
  if q.full then .ok { q with notFull := q.notFull.wait (t, x) }
  else do
    assertThat (q.full = false)
    return { q with
      queue := q.queue ++ [x]
      received := q.received ++ [x]
      notEmpty := q.notEmpty.wake p }

/-- `take` with the mutex, up to its `wait` or its return. -/
def take (t : τ) (p : τ × α → Bool) : Except Fault (BoundedBlockingQueue τ α) :=
  match q.queue with
  | [] => .ok { q with notEmpty := q.notEmpty.wait t }
  | front :: rest => .ok { q with
      queue := rest
      delivered := q.delivered ++ [front]
      notFull := q.notFull.wake p }

/-- A thread is in one call at a time. -/
def MayCall (t : τ) : Prop :=
  t ∉ q.notEmpty.waiting ++ q.notEmpty.woken ∧
    t ∉ (q.notFull.waiting ++ q.notFull.woken).map Prod.fst

section Threads

variable [DecidableEq τ] [DecidableEq α]

def step : QueueStep τ α → Except Fault (BoundedBlockingQueue τ α)
  | .put t x p => q.put t x p
  | .resumePut t x p => { q with notFull := q.notFull.resume (t, x) }.put t x p
  | .take t p => q.take t p
  | .resumeTake t p => { q with notEmpty := q.notEmpty.resume t }.take t p
  | .wakeConsumers p => return { q with notEmpty := q.notEmpty.wake p }
  | .wakeProducers p => return { q with notFull := q.notFull.wake p }

def Allows : QueueStep τ α → Prop
  | .put t _ p => q.MayCall t ∧ q.notEmpty.Signals p
  | .resumePut t x p => (t, x) ∈ q.notFull.woken ∧ q.notEmpty.Signals p
  | .take t p => q.MayCall t ∧ q.notFull.Signals p
  | .resumeTake t p => t ∈ q.notEmpty.woken ∧ q.notFull.Signals p
  | .wakeConsumers _ | .wakeProducers _ => True

instance (t : τ) : Decidable (q.MayCall t) := inferInstanceAs (Decidable (_ ∧ _))

instance : (a : QueueStep τ α) → Decidable (q.Allows a)
  | .put t _ p => inferInstanceAs (Decidable (q.MayCall t ∧ q.notEmpty.Signals p))
  | .resumePut t x p =>
    inferInstanceAs (Decidable ((t, x) ∈ q.notFull.woken ∧ q.notEmpty.Signals p))
  | .take t p => inferInstanceAs (Decidable (q.MayCall t ∧ q.notFull.Signals p))
  | .resumeTake t p => inferInstanceAs (Decidable (t ∈ q.notEmpty.woken ∧ q.notFull.Signals p))
  | .wakeConsumers _ | .wakeProducers _ => .isTrue trivial

/-- All threads, in any order of their critical sections. -/
def machine : Machine (BoundedBlockingQueue τ α) (QueueStep τ α) Fault where
  Allows q a := q.Allows a
  step q a := q.step a

instance (a : QueueStep τ α) : Decidable (machine.Allows q a) :=
  inferInstanceAs (Decidable (q.Allows a))

end Threads

/-- The order is kept, the bound is kept, and neither values nor free places are left
without a thread that was woken for them, while others wait. -/
structure Sound (capacity : ℕ) (q : BoundedBlockingQueue τ α) : Prop where
  unchanged : q.capacity = capacity
  order : q.delivered ++ q.queue = q.received
  bound : q.queue.length ≤ capacity
  values : q.notEmpty.Served q.queue.length
  places : q.notFull.Served (capacity - q.queue.length)

variable {q} {capacity : ℕ}

theorem sound_init (capacity : ℕ) : (init capacity : BoundedBlockingQueue τ α).Sound capacity where
  unchanged := rfl
  order := rfl
  bound := Nat.zero_le _
  values := Condition.served_init _
  places := Condition.served_init _

/-- The critical section of `put`, entered with one free place less than there is. -/
theorem put_sound (hcapacity : q.capacity = capacity) (horder : q.delivered ++ q.queue = q.received)
    (hbound : q.queue.length ≤ capacity) (hvalues : q.notEmpty.Served q.queue.length)
    (hplaces : q.notFull.Served (capacity - q.queue.length - 1)) (t : τ) (x : α) {p : τ → Bool}
    (hp : q.notEmpty.Signals p) : ∃ q', q.put t x p = .ok q' ∧ q'.Sound capacity := by
  by_cases hfull : q.full = true
  · have hlength : q.queue.length = capacity := by
      simpa [full, hcapacity] using hfull
    rw [put, if_pos hfull]
    refine ⟨_, rfl, hcapacity, horder, hbound, hvalues, ?_⟩
    rw [hlength, Nat.sub_self]
    exact Condition.served_zero
  · have hlength : q.queue.length < capacity := by
      refine lt_of_le_of_ne hbound fun heq => hfull ?_
      simp [full, hcapacity, heq]
    rw [put, if_neg hfull, assertThat_pos (by simpa using hfull), ok_bind]
    refine ⟨_, rfl, hcapacity, ?_, ?_, ?_, ?_⟩
    · simp [← horder]
    · simp only [List.length_append, List.length_singleton]
      omega
    · simpa using hvalues.notify hp
    · simpa [Nat.sub_sub] using hplaces

/-- The critical section of `take`, entered with one value less than there is. -/
theorem take_sound (hcapacity : q.capacity = capacity)
    (horder : q.delivered ++ q.queue = q.received)
    (hbound : q.queue.length ≤ capacity) (hvalues : q.notEmpty.Served (q.queue.length - 1))
    (hplaces : q.notFull.Served (capacity - q.queue.length)) (t : τ) {p : τ × α → Bool}
    (hp : q.notFull.Signals p) : ∃ q', q.take t p = .ok q' ∧ q'.Sound capacity := by
  unfold take
  split
  · next hempty =>
    refine ⟨_, rfl, hcapacity, horder, hbound, ?_, hplaces⟩
    rw [hempty]
    exact Condition.served_zero
  · next front rest hqueue =>
    rw [hqueue] at horder hbound hvalues hplaces
    rw [List.length_cons] at hbound hvalues hplaces
    refine ⟨_, rfl, hcapacity, ?_, ?_, ?_, ?_⟩
    · simpa using horder
    · exact Nat.le_of_succ_le hbound
    · exact hvalues
    · have hsupply : capacity - rest.length = capacity - (rest.length + 1) + 1 := by omega
      rw [hsupply]
      exact hplaces.notify hp

def line (q : BoundedBlockingQueue τ α) : QueueLine α := ⟨q.received, q.delivered, q.queue⟩

theorem put_line {q' : BoundedBlockingQueue τ α} (t : τ) {x : α} {p : τ → Bool}
    (hq' : q.put t x p = .ok q') :
    q'.line = q.line.next q.capacity (.put t x p) ∧ q'.capacity = q.capacity := by
  by_cases hfull : q.queue.length = q.capacity
  · have hq : q.full = true := by simp [full, hfull]
    rw [put, if_pos hq] at hq'
    cases hq'
    exact ⟨(if_pos hfull).symm, rfl⟩
  · have hq : q.full = false := by simp [full, hfull]
    rw [put, if_neg (by simp [hq]), assertThat_pos hq] at hq'
    cases hq'
    exact ⟨(if_neg hfull).symm, rfl⟩

theorem take_line {q' : BoundedBlockingQueue τ α} (t : τ) {p : τ × α → Bool}
    (hq' : q.take t p = .ok q') :
    q'.line = q.line.next q.capacity (.take t p) ∧ q'.capacity = q.capacity := by
  unfold take at hq'
  split at hq' <;> next hqueue =>
    cases hq'
    exact ⟨by simp [line, QueueLine.next, hqueue], rfl⟩

variable [DecidableEq τ] [DecidableEq α]

theorem step_line {q' : BoundedBlockingQueue τ α} {a : QueueStep τ α} (hq' : q.step a = .ok q') :
    q'.line = q.line.next q.capacity a ∧ q'.capacity = q.capacity := by
  cases a with
  | put t x p => exact put_line t hq'
  | resumePut t x p => exact put_line (q := { q with notFull := q.notFull.resume (t, x) }) t hq'
  | take t p => exact take_line t hq'
  | resumeTake t p => exact take_line (q := { q with notEmpty := q.notEmpty.resume t }) t hq'
  | wakeConsumers p | wakeProducers p =>
    cases hq'
    exact ⟨rfl, rfl⟩

theorem Sound.step (h : q.Sound capacity) {a : QueueStep τ α} (ha : q.Allows a) :
    ∃ q', q.step a = .ok q' ∧ q'.Sound capacity := by
  cases a with
  | put t x p =>
    exact put_sound h.unchanged h.order h.bound h.values (h.places.mono (Nat.sub_le _ _)) t x ha.2
  | resumePut t x p =>
    exact put_sound (q := { q with notFull := q.notFull.resume (t, x) }) h.unchanged h.order h.bound
      h.values (h.places.resume ha.1) t x ha.2
  | take t p =>
    exact take_sound h.unchanged h.order h.bound (h.values.mono (Nat.sub_le _ _)) h.places t ha.2
  | resumeTake t p =>
    exact take_sound (q := { q with notEmpty := q.notEmpty.resume t }) h.unchanged h.order h.bound
      (h.values.resume ha.1) h.places t ha.2
  | wakeConsumers p => exact ⟨_, rfl, h.unchanged, h.order, h.bound, h.values.wake p, h.places⟩
  | wakeProducers p => exact ⟨_, rfl, h.unchanged, h.order, h.bound, h.values, h.places.wake p⟩

/-- However the threads interleave: what was taken, followed by what is in the queue, is
what was put, in order, as in a line that the calls go through one after the other; the
queue is never longer than its capacity; and when no woken
thread is on its way, a consumer waits only for an empty queue and a producer only for a
full one. -/
theorem fifo_without_lost_wakeups (capacity : ℕ) (steps : List (QueueStep τ α))
    (h : machine.Permits (init capacity) steps) :
    ∃ q, machine.run (init capacity) steps = .ok q ∧
      q.delivered ++ q.queue = q.received ∧ q.queue.length ≤ capacity ∧
      (q.notEmpty.woken = [] → q.notEmpty.waiting ≠ [] → q.queue = []) ∧
      (q.notFull.woken = [] → q.notFull.waiting ≠ [] → q.queue.length = capacity) ∧
      q.received = (QueueLine.after capacity steps).received ∧
      q.delivered = (QueueLine.after capacity steps).delivered := by
  have hstep : ∀ (q : BoundedBlockingQueue τ α) a, q.Sound capacity → machine.Allows q a →
      ∃ q', machine.step q a = .ok q' ∧ q'.Sound capacity := fun _ _ hs ha => hs.step ha
  obtain ⟨q, hq, hs⟩ := machine.run_safe hstep (sound_init capacity) h
  have hline : q.line = QueueLine.after capacity steps ∧ q.capacity = capacity := by
    refine machine.run_history (R := fun q past =>
      q.line = QueueLine.after capacity past ∧ q.capacity = capacity) ?_ ⟨rfl, rfl⟩ h hq
    intro q past a q' ⟨hpast, hcapacity⟩ _ hq'
    obtain ⟨hnext, hsame⟩ := step_line hq'
    refine ⟨?_, hsame.trans hcapacity⟩
    rw [hnext, hpast, hcapacity, QueueLine.after, QueueLine.after, List.foldl_append,
      List.foldl_cons, List.foldl_nil]
  refine ⟨q, hq, hs.order, hs.bound, ?_, ?_, congrArg QueueLine.received hline.1,
    congrArg QueueLine.delivered hline.1⟩
  · intro hwoken hwaiting
    have hvalues := hs.values hwaiting
    rw [hwoken] at hvalues
    exact List.length_eq_zero_iff.mp (Nat.le_zero.mp hvalues)
  · intro hwoken hwaiting
    have hplaces := hs.places hwaiting
    rw [hwoken, List.length_nil] at hplaces
    have hbound := hs.bound
    omega

/-- One place, two consumers and a producer: the consumer that is woken for the first
value finds that another one has taken it. -/
def stolenSteps : List (QueueStep ℕ ℕ) :=
  [.take 1 (fun _ => true), .put 2 7 (fun _ => true), .take 3 (fun _ => true),
    .resumeTake 1 (fun _ => true), .put 2 8 (fun _ => true), .wakeProducers (fun _ => true),
    .put 3 9 (fun _ => true), .resumeTake 1 (fun _ => true), .resumePut 3 9 (fun _ => true)]

theorem fifo_without_lost_wakeups_stolen :
    machine.Permits (init 1) stolenSteps ∧
      ∃ q, machine.run (init 1) stolenSteps = .ok q ∧
        q.delivered ++ q.queue = q.received ∧ q.queue.length ≤ 1 ∧
        (q.notEmpty.woken = [] → q.notEmpty.waiting ≠ [] → q.queue = []) ∧
        (q.notFull.woken = [] → q.notFull.waiting ≠ [] → q.queue.length = 1) ∧
        q.received = [7, 8, 9] ∧ q.delivered = [7, 8] :=
  have hp : machine.Permits (init 1) stolenSteps := by decide +kernel
  ⟨hp, fifo_without_lost_wakeups 1 stolenSteps hp⟩

end BoundedBlockingQueue
end Muduo
