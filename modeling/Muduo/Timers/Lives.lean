import Muduo.Timers.Reentrancy

/-!
# The lives of timers

What a timer queue is for, said without its sets: a timer waits to be added, is
stored, runs in a batch when it has expired, and goes back or is deleted behind
it; a cancelled timer is deleted as soon as no callback of its batch can be
running. Timers are told apart by their sequence numbers, so that it does not
matter where their objects are and whose address they take over. The queue keeps
exactly these lives: every object on its heap has one owner.
-/

namespace Muduo

open Foundations TimerQueue

/-- Who owns a timer. -/
inductive Place where
  | waiting
  | stored
  | running
  | deleted
  deriving DecidableEq, Repr

structure Life where
  place : Place
  ptr : TimerPtr
  timer : Timer
  deriving DecidableEq

namespace Life

variable (l : Life)

def id : TimerId := ⟨l.ptr, l.timer.sequence⟩

/-- `addTimerInLoop` for the timer at `p`. -/
def add (p : TimerPtr) : Life :=
  if l.place = .waiting ∧ l.ptr = p then { l with place := .stored } else l

def cancel (i : TimerId) : Life :=
  if l.place = .stored ∧ l.id = i then { l with place := .deleted } else l

def expire (now : Timestamp) : Life :=
  if l.place = .stored ∧ l.timer.expiration ≤ now then { l with place := .running } else l

/-- Behind the callbacks of the batch: a repeating timer that was not cancelled
meanwhile is due one interval after the batch. -/
def settle (now : Timestamp) (cancelled : List TimerId) : Life :=
  if l.place = .running then
    if l.timer.repeats = true ∧ l.id ∉ cancelled then
      { l with place := .stored, timer := l.timer.restart now }
    else { l with place := .deleted }
  else l

theorem add_keeps (p : TimerPtr) : (l.add p).ptr = l.ptr ∧ (l.add p).timer = l.timer ∧
    ((l.add p).place = .deleted ↔ l.place = .deleted) := by
  unfold add
  split_ifs with h
  · simp [h.1]
  · simp

theorem expire_keeps (now : Timestamp) :
    (l.expire now).ptr = l.ptr ∧ (l.expire now).timer = l.timer ∧
      ((l.expire now).place = .deleted ↔ l.place = .deleted) := by
  unfold expire
  split_ifs with h
  · simp [h.1]
  · simp

theorem settle_sequence (now : Timestamp) (cancelled : List TimerId) :
    (l.settle now cancelled).timer.sequence = l.timer.sequence := by
  unfold settle
  split_ifs <;> rfl

end Life

/-- The timers that were ever created, by sequence number. -/
structure Lives where
  life : ℤ → Option Life
  /-- the time of the batch -/
  now : Timestamp
  /-- what was cancelled since the batch began -/
  cancelled : List TimerId

namespace Lives

def init : Lives where
  life _ := none
  now := Timestamp.invalid
  cancelled := []

def next (L : Lives) : TimerStep → Lives
  | .newTimer p timer =>
    { L with life := Function.update L.life timer.sequence (some ⟨.waiting, p, timer⟩) }
  | .addTimerInLoop p _ => { L with life := fun n => (L.life n).map (·.add p) }
  | .cancelInLoop i =>
    { L with life := fun n => (L.life n).map (·.cancel i), cancelled := i :: L.cancelled }
  | .beginHandleRead now _ =>
    { life := fun n => (L.life n).map (·.expire now), now := now, cancelled := [] }
  | .endHandleRead _ => { L with life := fun n => (L.life n).map (·.settle L.now L.cancelled) }
  | .runCallback | .expire => L

end Lives

namespace TimerQueue

variable {q q' : TimerQueue}

theorem insert_frame {p : TimerPtr} {b : Bool} (h : q.insert p = .ok (b, q')) :
    q'.heap = q.heap ∧ q'.cancelingTimers = q.cancelingTimers ∧
      q'.callingExpiredTimers = q.callingExpiredTimers := by
  simp only [insert, bind_eq_ok] at h
  obtain ⟨-, -, timer, -, -, -, -, -, -, -, h⟩ := h
  cases h
  exact ⟨rfl, rfl, rfl⟩

/-- What `reset` makes of the objects of its batch. -/
def afterReset (q : TimerQueue) (now : Timestamp) (p : TimerPtr) (timer : Timer) : Option Timer :=
  if timer.repeats = true ∧ toLex (p, timer.sequence) ∉ q.cancelingTimers then
    some (timer.restart now)
  else none

theorem resetEntries_cons {now : Timestamp} {e : Entry} {es : List Entry}
    (h : q.resetEntries now (e :: es) = .ok q') :
    ∃ (timer : Timer) (q₁ : TimerQueue),
      q.heap e.ptr = some timer ∧ q₁.resetEntries now es = .ok q' ∧
      q₁.heap = Function.update q.heap e.ptr (q.afterReset now e.ptr timer) ∧
      q₁.cancelingTimers = q.cancelingTimers ∧
      q₁.callingExpiredTimers = q.callingExpiredTimers := by
  obtain ⟨timer, ht, h⟩ := bind_eq_ok.mp h
  have hheap : q.heap e.ptr = some timer := by
    unfold deref at ht
    split at ht
    · cases ht
      assumption
    · cases ht
  split_ifs at h with hr
  · obtain ⟨⟨b, q₁⟩, hinsert, h⟩ := bind_eq_ok.mp h
    obtain ⟨hq₁, hc⟩ := insert_frame hinsert
    exact ⟨timer, q₁, hheap, h, by rw [hq₁, afterReset, if_pos hr]; rfl, hc⟩
  · obtain ⟨q₁, hfree, h⟩ := bind_eq_ok.mp h
    rw [free_ok hheap] at hfree
    cases hfree
    exact ⟨timer, _, hheap, h, by rw [afterReset, if_neg hr]; rfl, rfl, rfl⟩

/-- The objects outside the batch stay, and each of the batch is seen once. -/
theorem resetEntries_heap {now : Timestamp} {es : List Entry} (hnodup : (es.map Entry.ptr).Nodup)
    (h : q.resetEntries now es = .ok q') :
    q'.callingExpiredTimers = q.callingExpiredTimers ∧
      (∀ p ∉ es.map Entry.ptr, q'.heap p = q.heap p) ∧
      ∀ p ∈ es.map Entry.ptr, ∀ timer, q.heap p = some timer →
        q'.heap p = q.afterReset now p timer := by
  induction es generalizing q with
  | nil =>
    cases h
    exact ⟨rfl, fun _ _ => rfl, by simp⟩
  | cons e es ih =>
    obtain ⟨hnew, hnodup⟩ := List.nodup_cons.mp hnodup
    obtain ⟨timer, q₁, ht, hrest, hheap, hcancel, hcalling⟩ := resetEntries_cons h
    obtain ⟨hcalling', hother, hbatch⟩ := ih hnodup hrest
    have hframe : ∀ p, p ≠ e.ptr → q₁.heap p = q.heap p := by
      intro p hp
      rw [hheap, Function.update_of_ne hp]
    refine ⟨hcalling'.trans hcalling, ?_, ?_⟩
    · intro p hp
      rw [List.map_cons, List.mem_cons, not_or] at hp
      rw [hother p hp.2, hframe p hp.1]
    · intro p hp timer' ht'
      rcases List.mem_cons.mp hp with rfl | hp
      · cases ht.symm.trans ht'
        rw [hother _ hnew, hheap, Function.update_self]
      · have hne : p ≠ e.ptr := by
          rintro rfl
          exact hnew hp
        rw [hbatch p hp timer' (by rw [hframe p hne, ht']), afterReset, hcancel, afterReset]

theorem endHandleRead_heap {now clock : Timestamp} {es : List Entry}
    (hnodup : (es.map Entry.ptr).Nodup) (h : q.endHandleRead es now clock = .ok q') :
    q'.callingExpiredTimers = false ∧
      (∀ p ∉ es.map Entry.ptr, q'.heap p = q.heap p) ∧
      ∀ p ∈ es.map Entry.ptr, ∀ timer, q.heap p = some timer →
        q'.heap p = q.afterReset now p timer := by
  obtain ⟨q₁, hloop, h⟩ := bind_eq_ok.mp h
  obtain ⟨next, -, h⟩ := bind_eq_ok.mp h
  have hq' : q'.heap = q₁.heap ∧ q'.callingExpiredTimers = q₁.callingExpiredTimers := by
    cases h
    split <;> exact ⟨rfl, rfl⟩
  rw [hq'.1, hq'.2]
  exact resetEntries_heap hnodup hloop

end TimerQueue

namespace Lives

variable {L : Lives} {p : TimerPtr} {timer : Timer}

/-- The object at `p` is a timer that was not deleted. -/
def Alive (L : Lives) (p : TimerPtr) (timer : Timer) : Prop :=
  ∃ l, L.life timer.sequence = some l ∧ l.place ≠ .deleted ∧ l.ptr = p ∧ l.timer = timer

/-- The timer has its object at `p`, and is in `place`. -/
def At (L : Lives) (place : Place) (p : TimerPtr) (timer : Timer) : Prop :=
  L.life timer.sequence = some ⟨place, p, timer⟩

theorem alive_map (f : Life → Life) (now : Timestamp) (cancelled : List TimerId)
    (hf : ∀ l, (f l).ptr = l.ptr ∧ (f l).timer = l.timer ∧
      ((f l).place = .deleted ↔ l.place = .deleted)) :
    Alive ⟨fun n => (L.life n).map f, now, cancelled⟩ p timer ↔ L.Alive p timer := by
  simp only [Alive, Option.map_eq_some_iff]
  constructor
  · rintro ⟨l', ⟨l, hl, rfl⟩, hplace, hptr, htimer⟩
    obtain ⟨hfp, hft, hfd⟩ := hf l
    exact ⟨l, hl, hfd.not.mp hplace, hfp ▸ hptr, hft ▸ htimer⟩
  · rintro ⟨l, hl, hplace, hptr, htimer⟩
    obtain ⟨hfp, hft, hfd⟩ := hf l
    exact ⟨f l, ⟨l, hl, rfl⟩, hfd.not.mpr hplace, hfp.trans hptr, hft.trans htimer⟩

end Lives

namespace TimerLoop

/-- Where the loop has the timers of a place, when its queue stores `S`. -/
def Houses (w : TimerLoop) (S : Set TimerPtr) : Place → TimerPtr → Prop
  | .waiting, p => p ∈ w.created
  | .stored, p => p ∈ S
  | .running, p => p ∈ w.batchPtrs
  | .deleted, _ => True

structure Follows (w : TimerLoop) (S : Set TimerPtr) (L : Lives) : Prop where
  consistent : w.Consistent S
  alive : ∀ p timer, w.queue.heap p = some timer ↔ L.Alive p timer
  keyed : ∀ n l, L.life n = some l → l.timer.sequence = n
  housed : ∀ n l, L.life n = some l → w.Houses S l.place l.ptr
  fresh : ∀ n, w.numCreated < n → L.life n = none
  calling : w.queue.callingExpiredTimers = w.batch.isSome
  now : ∀ b ∈ w.batch, b.now = L.now
  cancelled : ∀ n l, L.life n = some l → l.place = .running →
    (toLex (l.ptr, n) ∈ w.queue.cancelingTimers ↔ l.id ∈ L.cancelled)

variable {w : TimerLoop} {S : Set TimerPtr} {L : Lives} {p : TimerPtr} {timer : Timer}

theorem Consistent.houses_unique (h : w.Consistent S) {a b : Place} (ha : w.Houses S a p)
    (hb : w.Houses S b p) (hda : a ≠ .deleted) (hdb : b ≠ .deleted) : a = b := by
  have hcreated : p ∈ w.created → p ∉ S := fun hm => (h.outside p (List.mem_append_left _ hm)).1
  have hbatch : p ∈ w.batchPtrs → p ∉ S := fun hm => (h.outside p (List.mem_append_right _ hm)).1
  have hboth : p ∈ w.created → p ∉ w.batchPtrs :=
    fun hm hm' => (List.nodup_append.mp h.nodup).2.2 p hm p hm' rfl
  cases a <;> cases b <;> simp_all [Houses]

namespace Follows

theorem heap_of_life (h : w.Follows S L) {n : ℤ} {l : Life} (hl : L.life n = some l)
    (hplace : l.place ≠ .deleted) : w.queue.heap l.ptr = some l.timer := by
  refine (h.alive _ _).mpr ⟨l, ?_, hplace, rfl, rfl⟩
  rw [h.keyed n l hl, hl]

theorem life_of_heap (h : w.Follows S L) {place : Place} (ht : w.queue.heap p = some timer)
    (hp : w.Houses S place p) (hplace : place ≠ .deleted) :
    L.life timer.sequence = some ⟨place, p, timer⟩ := by
  obtain ⟨l, hl, hplace', rfl, rfl⟩ := (h.alive p timer).mp ht
  obtain rfl := h.consistent.houses_unique (h.housed _ _ hl) hp hplace' hplace
  exact hl

theorem batch_isSome (h : w.Follows S L) {n : ℤ} {l : Life} (hl : L.life n = some l)
    (hplace : l.place = .running) : w.batch.isSome = true := by
  have hm := h.housed n l hl
  rw [hplace] at hm
  cases hb : w.batch with
  | none => simp [Houses, batchPtrs, hb] at hm
  | some b => rfl

end Follows

theorem follows_init (clock : Timestamp) : (init clock).Follows ∅ Lives.init := by
  refine ⟨consistent_init clock, ?_, ?_, ?_, ?_, rfl, ?_, ?_⟩
  · intro p timer
    simp [init, TimerQueue.init, Lives.Alive, Lives.init]
  all_goals simp [init, Lives.init]

/-- The lives behind the creation of a timer are the new one and those before. -/
theorem Lives.newTimer_cases {n : ℤ} {l : Life}
    (hl : (L.next (.newTimer p timer)).life n = some l) :
    (n = timer.sequence ∧ l = ⟨.waiting, p, timer⟩) ∨
      (n ≠ timer.sequence ∧ L.life n = some l) := by
  by_cases hn : n = timer.sequence
  · have hself : (L.next (.newTimer p timer)).life timer.sequence = _ :=
      Function.update_self _ _ _
    rw [hn, hself] at hl
    exact .inl ⟨hn, (Option.some.inj hl).symm⟩
  · exact .inr ⟨hn, (Function.update_of_ne hn _ _).symm.trans hl⟩

theorem newTimer_alive (h : w.Follows S L) (ha : w.Allows (.newTimer p timer)) (p' : TimerPtr)
    (timer' : Timer) :
    (w.queue.store p timer).heap p' = some timer' ↔
      (L.next (.newTimer p timer)).Alive p' timer' := by
  obtain ⟨hp, -, hseq⟩ := ha
  by_cases hp' : p' = p
  · subst hp'
    simp only [store, Function.update_self]
    constructor
    · rintro ⟨rfl⟩
      exact ⟨_, Function.update_self _ _ _, by simp, rfl, rfl⟩
    · rintro ⟨l, hl, hplace, hptr, rfl⟩
      rcases Lives.newTimer_cases hl with ⟨-, hnew⟩ | ⟨-, hl⟩
      · rw [hnew]
      · rw [← hptr, h.heap_of_life hl hplace] at hp
        cases hp
  · have hheap : (w.queue.store p timer).heap p' = w.queue.heap p' :=
      Function.update_of_ne hp' _ _
    rw [hheap, h.alive]
    constructor
    · rintro ⟨l, hl, hplace, rfl, rfl⟩
      have hne : l.timer.sequence ≠ timer.sequence := by
        intro heq
        rw [heq, h.fresh _ hseq] at hl
        cases hl
      exact ⟨l, (Function.update_of_ne hne _ _).trans hl, hplace, rfl, rfl⟩
    · rintro ⟨l, hl, hplace, hptr, rfl⟩
      rcases Lives.newTimer_cases hl with ⟨-, hnew⟩ | ⟨-, hl⟩
      · exact absurd (hptr.symm.trans (congrArg Life.ptr hnew)) hp'
      · exact ⟨l, hl, hplace, hptr, rfl⟩

theorem newTimer_follows (h : w.Follows S L) (ha : w.Allows (.newTimer p timer)) :
    Follows { w with
      queue := w.queue.store p timer
      created := p :: w.created
      numCreated := timer.sequence } S (L.next (.newTimer p timer)) := by
  have halive := newTimer_alive h ha
  obtain ⟨hp, hb, hseq⟩ := ha
  refine ⟨newTimer_consistent h.consistent hp hb, halive, ?_, ?_, ?_, h.calling, h.now, ?_⟩
  · intro n l hl
    rcases Lives.newTimer_cases hl with ⟨rfl, rfl⟩ | ⟨-, hl⟩
    · rfl
    · exact h.keyed n l hl
  · intro n l hl
    rcases Lives.newTimer_cases hl with ⟨rfl, rfl⟩ | ⟨-, hl⟩
    · exact List.mem_cons_self
    · have hm := h.housed n l hl
      cases hplace : l.place <;> simp only [hplace, Houses] at hm ⊢
      · exact List.mem_cons_of_mem _ hm
      · exact hm
      · exact hm
  · intro n hn
    have hn : timer.sequence < n := hn
    exact (Function.update_of_ne hn.ne' _ _).trans (h.fresh n (hseq.trans hn))
  · intro n l hl hplace
    rcases Lives.newTimer_cases hl with ⟨rfl, rfl⟩ | ⟨-, hl⟩
    · cases hplace
    · exact h.cancelled n l hl hplace

theorem addTimerInLoop_follows (h : w.Follows S L) (hp : p ∈ w.created)
    (ht : w.queue.heap p = some timer) (clock : Timestamp) :
    Follows { w with
      queue := w.queue.added p timer clock
      created := w.created.erase p
      clock := clock } (Insert.insert p S) (L.next (.addTimerInLoop p clock)) := by
  refine ⟨addTimerInLoop_consistent h.consistent hp ht clock, ?_, ?_, ?_, ?_, h.calling, h.now, ?_⟩
  · intro p' timer'
    exact (h.alive p' timer').trans (Lives.alive_map _ _ _ fun l => l.add_keeps p).symm
  · intro n l' hl'
    obtain ⟨l, hl, rfl⟩ := Option.map_eq_some_iff.mp hl'
    rw [(l.add_keeps p).2.1, h.keyed n l hl]
  · intro n l' hl'
    obtain ⟨l, hl, rfl⟩ := Option.map_eq_some_iff.mp hl'
    have hm := h.housed n l hl
    unfold Life.add
    split_ifs with hadd
    · exact .inl hadd.2
    · cases hplace : l.place <;> simp only [hplace, Houses] at hm ⊢
      · have hne : l.ptr ≠ p := fun heq => hadd ⟨hplace, heq⟩
        exact (List.mem_erase_of_ne hne).mpr hm
      · exact .inr hm
      · exact hm
  · intro n hn
    simp [Lives.next, h.fresh n hn]
  · intro n l' hl' hplace
    obtain ⟨l, hl, rfl⟩ := Option.map_eq_some_iff.mp hl'
    unfold Life.add at hplace ⊢
    split_ifs at hplace ⊢
    exact h.cancelled n l hl hplace

/-- Whoever shares the id of a timer in the queue is this timer, and all others stay. -/
theorem Follows.cancel_cases (h : w.Follows S L) {i : TimerId} (hp : i.timer ∈ S)
    (ht : w.queue.heap i.timer = some timer) (hseq : timer.sequence = i.sequence) {n : ℤ} {l : Life}
    (hl : L.life n = some l) :
    (l.id ≠ i ∧ l.cancel i = l) ∨
      (l = ⟨.stored, i.timer, timer⟩ ∧ l.cancel i = ⟨.deleted, i.timer, timer⟩) := by
  have hlife : L.life i.sequence = some ⟨.stored, i.timer, timer⟩ :=
    hseq ▸ h.life_of_heap ht hp (by simp)
  have hid : (⟨.stored, i.timer, timer⟩ : Life).id = i := by
    simp [Life.id, hseq]
  by_cases heq : l.id = i
  · have hn : i.sequence = n := by
      rw [← heq]
      exact h.keyed n l hl
    rw [← hn, hlife] at hl
    obtain rfl := Option.some.inj hl
    exact .inr ⟨rfl, if_pos ⟨rfl, hid⟩⟩
  · exact .inl ⟨heq, if_neg fun hc => heq hc.2⟩

theorem Follows.ptr_ne (h : w.Follows S L) {i : TimerId} (ht : w.queue.heap i.timer = some timer)
    (hseq : timer.sequence = i.sequence) {n : ℤ} {l : Life} (hl : L.life n = some l)
    (hplace : l.place ≠ .deleted) (hni : l.id ≠ i) : l.ptr ≠ i.timer := by
  intro hptr
  have hsome := h.heap_of_life hl hplace
  rw [hptr, ht] at hsome
  exact hni (by rw [Life.id, hptr, ← Option.some.inj hsome, hseq])

theorem erased_alive (h : w.Follows S L) {i : TimerId} (hp : i.timer ∈ S)
    (ht : w.queue.heap i.timer = some timer) (hseq : timer.sequence = i.sequence)
    (p' : TimerPtr) (timer' : Timer) :
    (w.queue.erased i.timer timer).heap p' = some timer' ↔
      (L.next (.cancelInLoop i)).Alive p' timer' := by
  have hheap : ∀ p' ≠ i.timer, (w.queue.erased i.timer timer).heap p' = w.queue.heap p' :=
    fun p' hne => Function.update_of_ne hne _ _
  have hgone : (w.queue.erased i.timer timer).heap i.timer = none := Function.update_self _ _ _
  constructor
  · intro hsome
    have hp' : p' ≠ i.timer := by
      rintro rfl
      rw [hgone] at hsome
      cases hsome
    rw [hheap p' hp'] at hsome
    obtain ⟨l, hl, hplace, rfl, rfl⟩ := (h.alive _ _).mp hsome
    rcases h.cancel_cases hp ht hseq hl with ⟨-, hsame⟩ | ⟨heq, -⟩
    · exact ⟨l, by simp [Lives.next, hl, hsame], hplace, rfl, rfl⟩
    · exact absurd (congrArg Life.ptr heq) hp'
  · rintro ⟨l', hl', hplace, rfl, rfl⟩
    obtain ⟨l, hl, rfl⟩ := Option.map_eq_some_iff.mp hl'
    rcases h.cancel_cases hp ht hseq hl with ⟨hni, hsame⟩ | ⟨-, hdel⟩
    · rw [hsame] at hplace ⊢
      rw [hheap _ (h.ptr_ne ht hseq hl hplace hni)]
      exact h.heap_of_life hl hplace
    · rw [hdel] at hplace
      exact absurd rfl hplace

theorem erased_follows (h : w.Follows S L) {i : TimerId} (hp : i.timer ∈ S)
    (ht : w.queue.heap i.timer = some timer) (hseq : timer.sequence = i.sequence) :
    Follows { w with queue := w.queue.erased i.timer timer } (S \ {i.timer})
      (L.next (.cancelInLoop i)) := by
  refine ⟨erased_consistent h.consistent hp ht, erased_alive h hp ht hseq, ?_, ?_, ?_, h.calling,
    h.now, ?_⟩
  · intro n l' hl'
    obtain ⟨l, hl, rfl⟩ := Option.map_eq_some_iff.mp hl'
    have hkeyed := h.keyed n l hl
    rcases h.cancel_cases hp ht hseq hl with ⟨-, hsame⟩ | ⟨rfl, hdel⟩
    · rw [hsame, hkeyed]
    · rw [hdel]
      exact hkeyed
  · intro n l' hl'
    obtain ⟨l, hl, rfl⟩ := Option.map_eq_some_iff.mp hl'
    have hm := h.housed n l hl
    rcases h.cancel_cases hp ht hseq hl with ⟨hni, hsame⟩ | ⟨-, hdel⟩
    · rw [hsame]
      cases hplace : l.place <;> simp only [hplace, Houses] at hm ⊢
      · exact hm
      · exact ⟨hm, h.ptr_ne ht hseq hl (by simp [hplace]) hni⟩
      · exact hm
    · rw [hdel]
      trivial
  · intro n hn
    simp [Lives.next, h.fresh n hn]
  · intro n l' hl' hplace
    obtain ⟨l, hl, rfl⟩ := Option.map_eq_some_iff.mp hl'
    rcases h.cancel_cases hp ht hseq hl with ⟨hni, hsame⟩ | ⟨-, hdel⟩
    · rw [hsame] at hplace ⊢
      rw [Lives.next, List.mem_cons, or_iff_right hni]
      exact h.cancelled n l hl hplace
    · rw [hdel] at hplace
      cases hplace

/-- An id that is not in the queue is remembered, while there is a batch. -/
theorem remembered_follows (h : w.Follows S L) {i : TimerId}
    (hm : toLex (i.timer, i.sequence) ∉ w.queue.activeTimers) :
    Follows { w with queue := w.queue.remembered i } S (L.next (.cancelInLoop i)) := by
  have hsame : ∀ n l, L.life n = some l → l.cancel i = l := by
    intro n l hl
    refine if_neg ?_
    rintro ⟨hplace, rfl⟩
    have hstored := h.housed n l hl
    rw [hplace] at hstored
    have hsome := h.heap_of_life hl (by simp [hplace])
    exact hm ((h.consistent.stores.active _ _).mpr ⟨hstored, l.timer, hsome, rfl⟩)
  have hlife : (L.next (.cancelInLoop i)).life = L.life := by
    funext n
    cases hl : L.life n with
    | none => simp [Lives.next, hl]
    | some l => simp [Lives.next, hl, hsame n l hl]
  refine ⟨h.consistent.congr rfl rfl rfl rfl rfl h.consistent.rest, ?_, ?_, ?_, ?_, h.calling,
    h.now, ?_⟩
  · intro p timer
    rw [Lives.Alive, hlife]
    exact h.alive p timer
  · rw [hlife]
    exact h.keyed
  · rw [hlife]
    exact h.housed
  · rw [hlife]
    exact h.fresh
  · rw [hlife]
    intro n l hl hplace
    have hcalling := h.calling.trans (h.batch_isSome hl hplace)
    have hid : toLex (l.ptr, n) = toLex (i.timer, i.sequence) ↔ l.id = i := by
      rw [← h.keyed n l hl]
      obtain ⟨p, m⟩ := i
      simp [Life.id]
    simp only [remembered, hcalling, if_true, OrderedSet.mem_insert, Lives.next, List.mem_cons]
    exact or_congr hid (h.cancelled n l hl hplace)

theorem beginHandleRead_follows (h : w.Follows S L) (hb : w.batch = none)
    {now readAt : Timestamp} {active : OrderedSet ActiveTimer}
    (hq : (w.queue.opened now readAt active).Stores (w.queue.after S now)) :
    Follows { w with
      queue := w.queue.opened now readAt active
      batch := some ⟨now, w.queue.timers.below (toLex (now, uintptrMax)),
        w.queue.timers.below (toLex (now, uintptrMax))⟩
      clock := readAt } (w.queue.after S now) (L.next (.beginHandleRead now readAt)) := by
  refine ⟨beginHandleRead_consistent h.consistent hb hq, ?_, ?_, ?_, ?_, rfl, ?_, ?_⟩
  · intro p timer
    exact (h.alive p timer).trans (Lives.alive_map _ _ _ fun l => l.expire_keeps now).symm
  · intro n l' hl'
    obtain ⟨l, hl, rfl⟩ := Option.map_eq_some_iff.mp hl'
    rw [(l.expire_keeps now).2.1, h.keyed n l hl]
  · intro n l' hl'
    obtain ⟨l, hl, rfl⟩ := Option.map_eq_some_iff.mp hl'
    have hm := h.housed n l hl
    unfold Life.expire
    split_ifs with hexp
    · rw [hexp.1] at hm
      have hsome := h.heap_of_life hl (by simp [hexp.1])
      exact (h.consistent.stores.expired_ptr_iff h.consistent.bound_stored now l.ptr).mpr
        ⟨hm, l.timer, hsome, hexp.2⟩
    · cases hplace : l.place with
      | waiting =>
        rw [hplace] at hm
        exact hm
      | stored =>
        rw [hplace] at hm
        refine ⟨hm, fun timer ht => ?_⟩
        have hsome := h.heap_of_life hl (by simp [hplace])
        cases hsome.symm.trans ht
        exact not_le.mp fun hle => hexp ⟨hplace, hle⟩
      | running =>
        have hsome := h.batch_isSome hl hplace
        simp [hb] at hsome
      | deleted => trivial
  · intro n hn
    simp [Lives.next, h.fresh n hn]
  · rintro b ⟨rfl⟩
    rfl
  · intro n l' hl' hplace
    simp [Lives.next, opened]

theorem runCallback_follows (h : w.Follows S L) {b : Batch} (hb : w.batch = some b)
    {rest : List Entry} {ran : List TimerId}
    (hcons : Consistent { w with batch := some { b with rest := rest }, ran := ran } S) :
    Follows { w with batch := some { b with rest := rest }, ran := ran } S
      (L.next .runCallback) := by
  have hptrs : ∀ place p, w.Houses S place p →
      Houses { w with batch := some { b with rest := rest }, ran := ran } S place p := by
    intro place p hm
    cases place with
    | running =>
      rw [Houses, batchPtrs, hb] at hm
      exact hm
    | waiting | stored | deleted => exact hm
  refine ⟨hcons, h.alive, h.keyed, fun n l hl => hptrs _ _ (h.housed n l hl), h.fresh, ?_, ?_,
    h.cancelled⟩
  · rw [h.calling, hb]
    rfl
  · rintro b' ⟨rfl⟩
    exact h.now b hb

theorem Follows.settled (h : w.Follows S L) {b : Batch} (hb : w.batch = some b) {n : ℤ} {l : Life}
    (hl : L.life n = some l) (hplace : l.place = .running) :
    (l.settle L.now L.cancelled = ⟨.stored, l.ptr, l.timer.restart b.now⟩ ∧
        w.queue.afterReset b.now l.ptr l.timer = some (l.timer.restart b.now) ∧
        l.ptr ∈ w.queue.restarted b.expired) ∨
      (l.settle L.now L.cancelled = ⟨.deleted, l.ptr, l.timer⟩ ∧
        w.queue.afterReset b.now l.ptr l.timer = none) := by
  have hcancelled := h.cancelled n l hl hplace
  rw [← h.keyed n l hl] at hcancelled
  have hmem : l.ptr ∈ b.expired.map Entry.ptr := by
    simpa [hplace, Houses, batchPtrs, hb] using h.housed n l hl
  have hback := and_congr_right fun _ : l.timer.repeats = true => hcancelled.not
  unfold Life.settle afterReset
  rw [if_pos hplace, ← h.now b hb]
  by_cases hr : l.timer.repeats = true ∧ l.id ∉ L.cancelled
  · rw [if_pos hr, if_pos (hback.mpr hr)]
    exact .inl ⟨rfl, rfl, hmem, l.timer, h.heap_of_life hl (by simp [hplace]), hback.mpr hr⟩
  · rw [if_neg hr, if_neg (hback.not.mpr hr)]
    exact .inr ⟨rfl, rfl⟩

/-- A living timer is in the batch exactly when its life says so. -/
theorem Follows.mem_batch_iff (h : w.Follows S L) {b : Batch} (hb : w.batch = some b) {n : ℤ}
    {l : Life} (hl : L.life n = some l) (hplace : l.place ≠ .deleted) :
    l.ptr ∈ b.expired.map Entry.ptr ↔ l.place = .running := by
  have hptrs : w.batchPtrs = b.expired.map Entry.ptr := by
    simp [batchPtrs, hb]
  have hm := h.housed n l hl
  rw [← hptrs]
  constructor
  · exact fun hp => h.consistent.houses_unique (b := .running) hm hp hplace (by simp)
  · intro hrun
    rwa [hrun] at hm

theorem endHandleRead_alive (h : w.Follows S L) {b : Batch} (hb : w.batch = some b)
    {q : TimerQueue} {clock : Timestamp}
    (hok : w.queue.endHandleRead b.expired b.now clock = .ok q) (p : TimerPtr) (timer : Timer) :
    q.heap p = some timer ↔ (L.next (.endHandleRead clock)).Alive p timer := by
  obtain ⟨hnodup, hout⟩ := h.consistent.batch_outside hb
  obtain ⟨-, hother, hbatch⟩ := endHandleRead_heap hnodup hok
  constructor
  · intro hsome
    by_cases hp : p ∈ b.expired.map Entry.ptr
    · obtain ⟨-, old, hold⟩ := hout p hp
      have hhouse : w.Houses S .running p := by
        rw [Houses, batchPtrs, hb]
        exact hp
      have hl := h.life_of_heap hold hhouse (by simp)
      rw [hbatch p hp old hold] at hsome
      rcases h.settled hb hl rfl with ⟨hsettle, hreset, -⟩ | ⟨-, hreset⟩
      · obtain rfl := Option.some.inj (hreset.symm.trans hsome)
        exact ⟨⟨.stored, p, old.restart b.now⟩, Option.map_eq_some_iff.mpr ⟨_, hl, hsettle⟩,
          by simp, rfl, rfl⟩
      · cases hreset.symm.trans hsome
    · rw [hother p hp] at hsome
      obtain ⟨l, hl, hplace, rfl, rfl⟩ := (h.alive _ _).mp hsome
      have hrun : l.place ≠ .running := fun hrun => hp ((h.mem_batch_iff hb hl hplace).mpr hrun)
      exact ⟨l, Option.map_eq_some_iff.mpr ⟨l, hl, if_neg hrun⟩, hplace, rfl, rfl⟩
  · rintro ⟨l', hl', hplace, rfl, rfl⟩
    obtain ⟨l, hl, rfl⟩ := Option.map_eq_some_iff.mp hl'
    by_cases hrun : l.place = .running
    · have hold := h.heap_of_life hl (by simp [hrun])
      have hp := (h.mem_batch_iff hb hl (by simp [hrun])).mpr hrun
      rcases h.settled hb hl hrun with ⟨hsettle, hreset, -⟩ | ⟨hsettle, -⟩
      · rw [hsettle]
        exact (hbatch _ hp _ hold).trans hreset
      · rw [hsettle] at hplace
        exact absurd rfl hplace
    · have hstays : l.settle L.now L.cancelled = l := if_neg hrun
      rw [hstays] at hplace ⊢
      rw [hother _ fun hp => hrun ((h.mem_batch_iff hb hl hplace).mp hp)]
      exact h.heap_of_life hl hplace

theorem endHandleRead_follows (h : w.Follows S L) {b : Batch} (hb : w.batch = some b)
    {q : TimerQueue} {next clock : Timestamp}
    (hcons : Consistent { w with queue := q.closed next clock, batch := none, clock := clock }
      (S ∪ w.queue.restarted b.expired))
    (hok : w.queue.endHandleRead b.expired b.now clock = .ok (q.closed next clock)) :
    Follows { w with queue := q.closed next clock, batch := none, clock := clock }
      (S ∪ w.queue.restarted b.expired) (L.next (.endHandleRead clock)) := by
  have hcalling := (endHandleRead_heap (h.consistent.batch_outside hb).1 hok).1
  have hstays : ∀ n l, L.life n = some l → l.place ≠ .running →
      l.settle L.now L.cancelled = l :=
    fun n l _ hplace => if_neg hplace
  refine ⟨hcons, endHandleRead_alive h hb hok, ?_, ?_, ?_, hcalling, by simp, ?_⟩
  · intro n l' hl'
    obtain ⟨l, hl, rfl⟩ := Option.map_eq_some_iff.mp hl'
    rw [Life.settle_sequence, h.keyed n l hl]
  · intro n l' hl'
    obtain ⟨l, hl, rfl⟩ := Option.map_eq_some_iff.mp hl'
    have hm := h.housed n l hl
    by_cases hrun : l.place = .running
    · rcases h.settled hb hl hrun with ⟨hsettle, -, hback⟩ | ⟨hsettle, -⟩
      · rw [hsettle]
        exact .inr hback
      · rw [hsettle]
        trivial
    · rw [hstays n l hl hrun]
      cases hplace : l.place <;> simp only [hplace, Houses] at hm ⊢
      · exact hm
      · exact .inl hm
      · exact absurd hplace hrun
  · intro n hn
    simp [Lives.next, h.fresh n hn]
  · intro n l' hl' hplace
    obtain ⟨l, hl, rfl⟩ := Option.map_eq_some_iff.mp hl'
    exfalso
    by_cases hrun : l.place = .running
    · rcases h.settled hb hl hrun with ⟨hsettle, -⟩ | ⟨hsettle, -⟩ <;> simp [hsettle] at hplace
    · rw [hstays n l hl hrun] at hplace
      exact hrun hplace

theorem step_follows (h : w.Follows S L) {a : TimerStep} (ha : w.Allows a) :
    ∃ w', w.step a = .ok w' ∧ ∃ S', w'.Follows S' (L.next a) := by
  have hc := h.consistent
  cases a with
  | newTimer p timer => exact ⟨_, rfl, S, newTimer_follows h ha⟩
  | addTimerInLoop p clock =>
    obtain ⟨hS, timer, ht⟩ := hc.outside p (List.mem_append_left _ ha.2)
    have hok := addTimerInLoop_ok hc.stores ht hS clock
    exact ⟨_, by simp only [step, hok, ok_bind]; rfl, _, addTimerInLoop_follows h ha.2 ht clock⟩
  | cancelInLoop i =>
    by_cases hm : toLex (i.timer, i.sequence) ∈ w.queue.activeTimers
    · obtain ⟨timer, hp, ht, hseq, hok⟩ := cancelInLoop_active hc.stores hm
      exact ⟨_, by simp only [step, hok, ok_bind]; rfl, _, erased_follows h hp ht hseq⟩
    · have hok := cancelInLoop_inactive hc.stores hm
      exact ⟨_, by simp only [step, hok, ok_bind]; rfl, _, remembered_follows h hm⟩
  | beginHandleRead now readAt =>
    obtain ⟨active, hok, hstores⟩ := beginHandleRead_ok hc.stores hc.bound_stored now readAt
    have hb : w.batch = none := by simpa [Allows] using ha
    exact ⟨_, by simp only [step, hok, ok_bind]; rfl, _, beginHandleRead_follows h hb hstores⟩
  | runCallback =>
    obtain ⟨b, hb, hrest⟩ := ha
    obtain ⟨-, rest, ran, -, hok, hcons⟩ := runCallback_consistent hc hb hrest
    exact ⟨_, hok, S, runCallback_follows h hb hcons⟩
  | endHandleRead clock =>
    obtain ⟨b, hmem, -⟩ := ha
    have hb : w.batch = some b := hmem
    obtain ⟨hnodup, hout⟩ := hc.batch_outside hb
    obtain ⟨q, next, hok, hstores, hret, -⟩ := endHandleRead_ok hc.stores hout hnodup b.now clock
    have hcons := endHandleRead_consistent hc hb hstores hret next clock
    exact ⟨_, by simp only [step, hb, hok, ok_bind]; rfl, _, endHandleRead_follows h hb hcons hok⟩
  | expire =>
    have hcons : Consistent { w with queue := { w.queue with timerfd := .expired } } S :=
      hc.congr rfl rfl rfl rfl rfl hc.rest
    exact ⟨_, rfl, S, hcons, h.alive, h.keyed, h.housed, h.fresh, h.calling, h.now, h.cancelled⟩

theorem step_of_lives (w : TimerLoop) (L : Lives) (a : TimerStep) (h : ∃ S, w.Follows S L)
    (ha : machine.Allows w a) : ∃ w', machine.step w a = .ok w' ∧ ∃ S, w'.Follows S (L.next a) := by
  obtain ⟨S, hS⟩ := h
  exact step_follows hS ha

theorem run_follows {steps : List TimerStep} (h : ∃ S, w.Follows S L)
    (hp : machine.Permits w steps) :
    ∃ w', machine.run w steps = .ok w' ∧ ∃ S, w'.Follows S (steps.foldl Lives.next L) :=
  machine.run_refines _ _ step_of_lives steps w L h hp

/-- What a step can make of a life. -/
structure Moves (l l' : Life) (a : TimerStep) : Prop where
  id : l'.id = l.id
  waiting : l'.place = .waiting → l.place = .waiting
  running : l'.place = .running → l.place = .running ∨ ∃ now readAt, a = .beginHandleRead now readAt
  deleted : l.place = .deleted → l' = l

theorem Follows.life_next (h : w.Follows S L) {a : TimerStep} (ha : w.Allows a) {n : ℤ} {l : Life}
    (hl : L.life n = some l) : ∃ l', (L.next a).life n = some l' ∧ Moves l l' a := by
  have hmap : ∀ f : Life → Life, Moves l (f l) a →
      ∃ l', (L.life n).map f = some l' ∧ Moves l l' a :=
    fun f hf => ⟨f l, by rw [hl]; rfl, hf⟩
  cases a with
  | newTimer p timer =>
    have hne : n ≠ timer.sequence := by
      rintro rfl
      rw [h.fresh _ ha.2.2] at hl
      cases hl
    exact ⟨l, (Function.update_of_ne hne _ _).trans hl, rfl, id, .inl, fun _ => rfl⟩
  | addTimerInLoop p clock =>
    apply hmap
    unfold Life.add
    split_ifs with hc
    · constructor <;> simp [hc.1, Life.id]
    · exact ⟨rfl, id, .inl, fun _ => rfl⟩
  | cancelInLoop i =>
    apply hmap
    unfold Life.cancel
    split_ifs with hc
    · constructor <;> simp [hc.1, Life.id]
    · exact ⟨rfl, id, .inl, fun _ => rfl⟩
  | beginHandleRead now readAt =>
    apply hmap
    unfold Life.expire
    split_ifs with hc
    · constructor <;> simp [hc.1, Life.id]
    · exact ⟨rfl, id, .inl, fun _ => rfl⟩
  | endHandleRead clock =>
    apply hmap
    unfold Life.settle
    split_ifs with hc
    · constructor <;> simp [hc, Life.id, Timer.restart]
    · constructor <;> simp [hc, Life.id]
    · exact ⟨rfl, id, .inl, fun _ => rfl⟩
  | runCallback | expire => exact ⟨l, hl, rfl, id, .inl, fun _ => rfl⟩

/-- Nothing happens to a deleted timer: no later one has its number. -/
theorem Follows.deleted_next (h : w.Follows S L) {a : TimerStep} (ha : w.Allows a)
    {n : ℤ} {l : Life}
    (hl : L.life n = some l) (hplace : l.place = .deleted) : (L.next a).life n = some l := by
  obtain ⟨l', hl', hmoves⟩ := h.life_next ha hl
  rw [hl', hmoves.deleted hplace]

theorem Follows.lives_run {P : Lives → Prop}
    (hnext : ∀ (w : TimerLoop) S L a, w.Follows S L → w.Allows a → P L → P (L.next a))
    {steps : List TimerStep} (h : w.Follows S L) (hp : machine.Permits w steps) (hL : P L) :
    P (steps.foldl Lives.next L) := by
  induction steps generalizing w S L with
  | nil => exact hL
  | cons a steps ih =>
    obtain ⟨w₁, hstep, S₁, h₁⟩ := step_follows h hp.1
    exact ih h₁ ((machine.permits_cons_ok hstep).mp hp).2 (hnext w S L a h hp.1 hL)

/-- The loop has each timer where its life is, and nothing else. -/
structure Keeps (w : TimerLoop) (L : Lives) : Prop where
  /-- whatever address it has, a timer has its own id -/
  issued : ∀ n l, L.life n = some l → l.timer.sequence = n
  heap : ∀ p timer, w.queue.heap p = some timer ↔ L.Alive p timer
  created : w.created.Nodup ∧ ∀ p, p ∈ w.created ↔ ∃ timer, L.At .waiting p timer
  timers : ∀ when p, toLex (when, p) ∈ w.queue.timers ↔
    ∃ timer, L.At .stored p timer ∧ timer.expiration = when
  active : ∀ p n, toLex (p, n) ∈ w.queue.activeTimers ↔
    ∃ timer, L.At .stored p timer ∧ timer.sequence = n
  batch : w.batchPtrs.Nodup ∧ ∀ p, p ∈ w.batchPtrs ↔ ∃ timer, L.At .running p timer

theorem Follows.houses_iff (h : w.Follows S L) (place : Place) (hplace : place ≠ .deleted) :
    w.Houses S place p ↔ ∃ timer, L.At place p timer := by
  constructor
  · intro hp
    have hlive : ∃ timer, w.queue.heap p = some timer := by
      cases place with
      | waiting => exact (h.consistent.outside p (List.mem_append_left _ hp)).2
      | stored => exact h.consistent.stores.live p hp
      | running => exact (h.consistent.outside p (List.mem_append_right _ hp)).2
      | deleted => exact absurd rfl hplace
    obtain ⟨timer, ht⟩ := hlive
    exact ⟨timer, h.life_of_heap ht hp hplace⟩
  · rintro ⟨timer, hl⟩
    exact h.housed _ _ hl

theorem Follows.stored_iff (h : w.Follows S L) :
    L.At .stored p timer ↔ p ∈ S ∧ w.queue.heap p = some timer := by
  constructor
  · intro hl
    exact ⟨h.housed _ _ hl, h.heap_of_life hl (by simp)⟩
  · rintro ⟨hp, ht⟩
    exact h.life_of_heap ht hp (by simp)

theorem Follows.keeps (h : w.Follows S L) : w.Keeps L := by
  obtain ⟨hcreated, hbatch, -⟩ := List.nodup_append.mp h.consistent.nodup
  refine ⟨h.keyed, h.alive, ⟨hcreated, fun p => ?_⟩, ?_, ?_, ⟨hbatch, fun p => ?_⟩⟩
  · exact h.houses_iff .waiting (by simp)
  · intro when p
    simp only [h.consistent.stores.timers when p, h.stored_iff]
    exact ⟨fun ⟨hp, timer, ht, he⟩ => ⟨timer, ⟨hp, ht⟩, he⟩,
      fun ⟨timer, ⟨hp, ht⟩, he⟩ => ⟨hp, timer, ht, he⟩⟩
  · intro p n
    simp only [h.consistent.stores.active p n, h.stored_iff]
    exact ⟨fun ⟨hp, timer, ht, hn⟩ => ⟨timer, ⟨hp, ht⟩, hn⟩,
      fun ⟨timer, ⟨hp, ht⟩, hn⟩ => ⟨hp, timer, ht, hn⟩⟩
  · exact h.houses_iff .running (by simp)

end TimerLoop
end Muduo
