import Muduo.Base.FixedBuffer

/-!
# Asynchronous logging

`append` writes into `currentBuffer_` under a mutex. The logging thread takes all
filled buffers and the current one at once, gives two empty ones in exchange, and
writes without the mutex. Lines that arrive meanwhile wait for its next round.

`waitForSeconds` may return at any time, with or without a signal, and the thread does
not look why; signals are left out therefore.
-/

namespace Muduo

open Foundations

def kLargeBuffer : ℕ := 4000 * 1000

/-- Where the logging thread is in `threadFunc`. -/
inductive LoggingPhase where
  /-- `start` was not called -/
  | created
  /-- in front of `latch_.countDown()` -/
  | starting
  /-- at `while (running_)` -/
  | atHead
  /-- behind the test, in front of the mutex -/
  | locking
  /-- in `waitForSeconds` -/
  | waiting
  /-- behind the critical section -/
  | swapped
  /-- in the loop over `buffersToWrite` -/
  | writing (i : ℕ)
  | left
  deriving DecidableEq, Repr

/-- What the thread found in one iteration, and the time for its notice. -/
structure LoggingRound (SIZE : ℕ) where
  found : List (FixedBuffer SIZE)
  now : Bytes

inductive LoggingStep where
  | start
  | append (logline : Bytes)
  /-- `running_ = false` in `stop` -/
  | stop
  /-- `join` returns -/
  | join
  /-- the thread's steps, in the order of its text -/
  | enter
  | test
  | lock
  | wake
  | check (now : Bytes)
  | write (i : ℕ)
  | recycle (i : ℕ)
  deriving DecidableEq

def LoggingStep.appended : LoggingStep → Option Bytes
  | .append logline => some logline
  | _ => none

/-- The members, the variables of `threadFunc` and, as a record, the lines that were
appended and the rounds of the thread. `output` is what was handed to the `LogFile`. -/
structure AsyncLogging (SIZE : ℕ) where
  running : Bool
  currentBuffer : Option (FixedBuffer SIZE)
  nextBuffer : Option (FixedBuffer SIZE)
  buffers : List (FixedBuffer SIZE)
  phase : LoggingPhase
  newBuffer1 : Option (FixedBuffer SIZE)
  newBuffer2 : Option (FixedBuffer SIZE)
  buffersToWrite : List (FixedBuffer SIZE)
  output : Bytes
  stopCalled : Bool
  joined : Bool
  lines : List Bytes
  rounds : List (LoggingRound SIZE)

variable {SIZE : ℕ}

def bytesOf (buffers : List (FixedBuffer SIZE)) : Bytes := buffers.flatMap FixedBuffer.bytes

@[simp] theorem bytesOf_nil : bytesOf ([] : List (FixedBuffer SIZE)) = [] := rfl

@[simp] theorem bytesOf_append (bs cs : List (FixedBuffer SIZE)) :
    bytesOf (bs ++ cs) = bytesOf bs ++ bytesOf cs := List.flatMap_append

@[simp] theorem bytesOf_cons (b : FixedBuffer SIZE) (bs : List (FixedBuffer SIZE)) :
    bytesOf (b :: bs) = b.bytes ++ bytesOf bs := rfl

/-- The text that stands for `n` buffers. -/
def droppedNotice (now : Bytes) (n : ℕ) : Bytes :=
  snprintf 256 (ascii "Dropped log messages at " ++ now ++ ascii ", " ++ ascii (toString n) ++
    ascii " larger buffers\n")

namespace LoggingRound

variable (r : LoggingRound SIZE)

/-- Of more than 25 buffers only two are written, behind a notice. -/
def handed : Bytes :=
  if 25 < r.found.length then
    droppedNotice r.now (r.found.length - 2) ++ bytesOf (r.found.take 2)
  else bytesOf r.found

end LoggingRound

namespace AsyncLogging

def init : AsyncLogging SIZE where
  running := false
  currentBuffer := some .new
  nextBuffer := some .new
  buffers := []
  phase := .created
  newBuffer1 := none
  newBuffer2 := none
  buffersToWrite := []
  output := []
  stopCalled := false
  joined := false
  lines := []
  rounds := []

variable (w : AsyncLogging SIZE)

def append (logline : Bytes) : Except Fault (AsyncLogging SIZE) :=
  match w.currentBuffer with
  | none => .error .outOfBounds
  | some current =>
    let w := { w with lines := w.lines ++ [logline] }
    if logline.length < current.avail then
      .ok { w with currentBuffer := some (current.append logline) }
    else
      .ok { w with
        buffers := w.buffers ++ [current]
        currentBuffer := some ((w.nextBuffer.getD .new).append logline)
        nextBuffer := none }

/-- The thread's beginning, up to its loop. -/
def enter : Except Fault (AsyncLogging SIZE) := do
  assertThat (w.running = true)
  return { w with newBuffer1 := some .new, newBuffer2 := some .new, phase := .atHead }

/-- The loop's test and the assertions behind it. -/
def test : Except Fault (AsyncLogging SIZE) :=
  if w.running then do
    assertThat (w.newBuffer1.any (·.length = 0) = true)
    assertThat (w.newBuffer2.any (·.length = 0) = true)
    assertThat (w.buffersToWrite.isEmpty = true)
    return { w with phase := .locking }
  else .ok { w with phase := .left }

/-- The critical section behind the wait. A null pointer cannot be pushed. -/
def swap : Except Fault (AsyncLogging SIZE) :=
  match w.currentBuffer with
  | none => .error .exception
  | some current =>
    let w := { w with
      currentBuffer := w.newBuffer1
      newBuffer1 := none
      buffersToWrite := w.buffers ++ [current]
      buffers := w.buffersToWrite
      phase := .swapped }
    if w.nextBuffer.isNone then .ok { w with nextBuffer := w.newBuffer2, newBuffer2 := none }
    else .ok w

/-- The critical section up to the wait. -/
def lock : Except Fault (AsyncLogging SIZE) :=
  if w.buffers.isEmpty then .ok { w with phase := .waiting } else w.swap

def check (now : Bytes) : Except Fault (AsyncLogging SIZE) := do
  assertThat (w.buffersToWrite.isEmpty = false)
  let w := { w with rounds := w.rounds ++ [⟨w.buffersToWrite, now⟩], phase := .writing 0 }
  if 25 < w.buffersToWrite.length then
    return { w with
      output := w.output ++ droppedNotice now (w.buffersToWrite.length - 2)
      buffersToWrite := w.buffersToWrite.take 2 }
  else return w

/-- The body of the loop over `buffersToWrite`. -/
def write (i : ℕ) : Except Fault (AsyncLogging SIZE) :=
  match w.buffersToWrite[i]? with
  | none => .error .outOfBounds
  | some b => .ok { w with output := w.output ++ b.bytes, phase := .writing (i + 1) }

/-- An empty slot is filled with the last of the buffers. -/
def reclaim (slot : Option (FixedBuffer SIZE)) (buffers : List (FixedBuffer SIZE)) :
    Except Fault (Option (FixedBuffer SIZE) × List (FixedBuffer SIZE)) :=
  match slot with
  | some b => .ok (some b, buffers)
  | none => do
    assertThat (buffers.isEmpty = false)
    return (buffers.getLast?.map FixedBuffer.reset, buffers.dropLast)

/-- The end of an iteration. -/
def recycle : Except Fault (AsyncLogging SIZE) := do
  let buffers := if 2 < w.buffersToWrite.length then w.buffersToWrite.take 2 else w.buffersToWrite
  let (newBuffer1, buffers) ← reclaim w.newBuffer1 buffers
  let (newBuffer2, _) ← reclaim w.newBuffer2 buffers
  return { w with
    newBuffer1 := newBuffer1
    newBuffer2 := newBuffer2
    buffersToWrite := []
    phase := .atHead }

def step : LoggingStep → Except Fault (AsyncLogging SIZE)
  | .start => return { w with running := true, phase := .starting }
  | .append logline => w.append logline
  | .stop => return { w with running := false, stopCalled := true }
  | .join => return { w with joined := true }
  | .enter => w.enter
  | .test => w.test
  | .lock => w.lock
  | .wake => w.swap
  | .check now => w.check now
  | .write i => w.write i
  | .recycle _ => w.recycle

/-- `stop` is called once, behind `start`, which waits for the latch. -/
def Allows : LoggingStep → Prop
  | .start => w.phase = .created
  | .append logline => logline.length < SIZE
  | .stop => w.phase ≠ .created ∧ w.phase ≠ .starting ∧ w.stopCalled = false
  | .join => w.stopCalled = true ∧ w.phase = .left
  | .enter => w.phase = .starting
  | .test => w.phase = .atHead
  | .lock => w.phase = .locking
  | .wake => w.phase = .waiting
  | .check _ => w.phase = .swapped
  | .write i => w.phase = .writing i ∧ i < w.buffersToWrite.length
  | .recycle i => w.phase = .writing i ∧ w.buffersToWrite.length ≤ i

instance : (a : LoggingStep) → Decidable (w.Allows a)
  | .start => inferInstanceAs (Decidable (w.phase = _))
  | .append logline => inferInstanceAs (Decidable (logline.length < SIZE))
  | .stop => inferInstanceAs (Decidable (_ ≠ _ ∧ _ ≠ _ ∧ w.stopCalled = false))
  | .join => inferInstanceAs (Decidable (w.stopCalled = true ∧ _ = _))
  | .enter | .test | .lock | .wake | .check _ => inferInstanceAs (Decidable (w.phase = _))
  | .write i => inferInstanceAs (Decidable (w.phase = _ ∧ i < w.buffersToWrite.length))
  | .recycle i => inferInstanceAs (Decidable (w.phase = _ ∧ w.buffersToWrite.length ≤ i))

/-- Any threads that append, the logging thread, and the one that starts and stops it. -/
def machine : Machine (AsyncLogging SIZE) LoggingStep Fault where
  Allows w a := w.Allows a
  step w a := w.step a

instance (a : LoggingStep) : Decidable (machine.Allows w a) :=
  inferInstanceAs (Decidable (w.Allows a))

/-- The same threads in an environment that is asked for less: the lines may have any
length, and `stop` may be called again. -/
def Admits : LoggingStep → Prop
  | .append _ => True
  | .stop => w.phase ≠ .created ∧ w.phase ≠ .starting
  | a => w.Allows a

instance : (a : LoggingStep) → Decidable (w.Admits a)
  | .append _ => .isTrue trivial
  | .stop => inferInstanceAs (Decidable (_ ≠ _ ∧ _ ≠ _))
  | .start => inferInstanceAs (Decidable (w.Allows .start))
  | .join => inferInstanceAs (Decidable (w.Allows .join))
  | .enter => inferInstanceAs (Decidable (w.Allows .enter))
  | .test => inferInstanceAs (Decidable (w.Allows .test))
  | .lock => inferInstanceAs (Decidable (w.Allows .lock))
  | .wake => inferInstanceAs (Decidable (w.Allows .wake))
  | .check now => inferInstanceAs (Decidable (w.Allows (.check now)))
  | .write i => inferInstanceAs (Decidable (w.Allows (.write i)))
  | .recycle i => inferInstanceAs (Decidable (w.Allows (.recycle i)))

theorem Allows.admits {w : AsyncLogging SIZE} {a : LoggingStep} (h : w.Allows a) : w.Admits a := by
  cases a with
  | append _ => trivial
  | stop => exact ⟨h.1, h.2.1⟩
  | _ => exact h

def freeMachine : Machine (AsyncLogging SIZE) LoggingStep Fault where
  Allows w a := w.Admits a
  step w a := w.step a

instance (a : LoggingStep) : Decidable (freeMachine.Allows w a) :=
  inferInstanceAs (Decidable (w.Admits a))

def Spare (slot : Option (FixedBuffer SIZE)) : Prop := ∃ b, slot = some b ∧ b.cur = 0

/-- The thread's own buffers: both spare ones at the head of its loop, and enough written
ones for those it gave away behind the exchange. -/
def Supplied : Prop :=
  match w.phase with
  | .created => w.buffersToWrite = []
  | .starting => w.running = true ∧ w.buffersToWrite = []
  | .atHead | .locking | .waiting | .left =>
    Spare w.newBuffer1 ∧ Spare w.newBuffer2 ∧ w.buffersToWrite = []
  | .swapped | .writing _ =>
    w.newBuffer1 = none ∧ w.buffersToWrite ≠ [] ∧
      (Spare w.newBuffer2 ∨ w.newBuffer2 = none ∧ 2 ≤ w.buffersToWrite.length)

/-- What the appending threads and the logging thread leave each other. If the next buffer
was taken, a full one was pushed since the last exchange. -/
structure Stocked (w : AsyncLogging SIZE) : Prop where
  current : ∃ b, w.currentBuffer = some b
  next : ∀ b, w.nextBuffer = some b → b.cur = 0
  taken : w.nextBuffer = none → w.buffers ≠ []
  supplied : w.Supplied

theorem stocked_init : (init : AsyncLogging SIZE).Stocked where
  current := ⟨_, rfl⟩
  next b hb := by cases hb; rfl
  taken h := by cases h
  supplied := rfl

def pending : Bytes := bytesOf w.buffers ++ bytesOf w.currentBuffer.toList

variable {w} {logline : Bytes}

/-- A line that fits into a buffer goes behind everything that is pending. -/
theorem append_spec (h : w.Stocked) (logline : Bytes) :
    ∃ current next buffers, w.append logline = .ok { w with
        lines := w.lines ++ [logline], currentBuffer := some current, nextBuffer := next,
        buffers := buffers } ∧
      (∀ b, next = some b → b.cur = 0) ∧ (next = none → buffers ≠ []) ∧
      (logline.length < SIZE → bytesOf buffers ++ current.bytes = w.pending ++ logline) := by
  obtain ⟨current, hcurrent⟩ := h.current
  by_cases hroom : logline.length < current.avail
  · refine ⟨current.append logline, w.nextBuffer, w.buffers, ?_, h.next, h.taken, fun _ => ?_⟩
    · simp [append, hcurrent, hroom]
    · simp [pending, hcurrent, FixedBuffer.bytes_append hroom]
  · have hempty : (w.nextBuffer.getD .new).cur = 0 := by
      cases hnext : w.nextBuffer with
      | none => rfl
      | some b => exact h.next b hnext
    refine ⟨(w.nextBuffer.getD .new).append logline, none, w.buffers ++ [current], ?_, ?_, ?_,
      fun hline => ?_⟩
    · simp [append, hcurrent, hroom]
    · intro b hb
      cases hb
    · simp
    · have hfits : logline.length < (w.nextBuffer.getD .new).avail := by
        rw [FixedBuffer.avail_of_empty hempty]
        exact hline
      simp [pending, hcurrent, FixedBuffer.bytes_append hfits, FixedBuffer.bytes_eq_nil hempty]

theorem enter_spec (h : w.Stocked) (hphase : w.phase = .starting) :
    w.enter = .ok { w with newBuffer1 := some .new, newBuffer2 := some .new, phase := .atHead } ∧
      Supplied { w with newBuffer1 := some .new, newBuffer2 := some .new, phase := .atHead } := by
  have hsupplied := h.supplied
  simp only [Supplied, hphase] at hsupplied
  refine ⟨?_, ⟨_, rfl, rfl⟩, ⟨_, rfl, rfl⟩, hsupplied.2⟩
  rw [enter, assertThat_pos hsupplied.1]
  rfl

theorem Spare.any {slot : Option (FixedBuffer SIZE)} (h : Spare slot) :
    slot.any (·.length = 0) = true := by
  obtain ⟨b, rfl, hb⟩ := h
  simp [FixedBuffer.length, hb]

theorem test_spec (h : w.Stocked) (hphase : w.phase = .atHead) :
    ∃ phase, w.test = .ok { w with phase := phase } ∧ (phase = .locking ∨ phase = .left) ∧
      Supplied { w with phase := phase } := by
  have hsupplied := h.supplied
  simp only [Supplied, hphase] at hsupplied
  obtain ⟨hspare1, hspare2, hwrite⟩ := hsupplied
  unfold test
  split_ifs with hrunning
  · refine ⟨.locking, ?_, .inl rfl, hspare1, hspare2, hwrite⟩
    rw [assertThat_pos hspare1.any, assertThat_pos hspare2.any, assertThat_pos (by simp [hwrite])]
    rfl
  · exact ⟨.left, rfl, .inr rfl, hspare1, hspare2, hwrite⟩

def exchanged (w : AsyncLogging SIZE) (current : FixedBuffer SIZE)
    (next newBuffer2 : Option (FixedBuffer SIZE)) : AsyncLogging SIZE :=
  { w with
    currentBuffer := w.newBuffer1, nextBuffer := next, buffers := [], newBuffer1 := none,
    newBuffer2 := newBuffer2, buffersToWrite := w.buffers ++ [current], phase := .swapped }

/-- The exchange. The thread gives its second spare buffer away only behind a push, and has
then two buffers to write. -/
theorem swap_spec (h : w.Stocked) (hphase : w.phase = .locking ∨ w.phase = .waiting) :
    ∃ current next newBuffer2, w.currentBuffer = some current ∧
      w.swap = .ok (w.exchanged current next newBuffer2) ∧ Spare w.newBuffer1 ∧
      (w.exchanged current next newBuffer2).Stocked := by
  have hsupplied : Spare w.newBuffer1 ∧ Spare w.newBuffer2 ∧ w.buffersToWrite = [] := by
    have hs := h.supplied
    obtain hphase | hphase := hphase
    · simpa only [Supplied, hphase] using hs
    · simpa only [Supplied, hphase] using hs
  obtain ⟨hspare1, ⟨b₂, hb₂, hempty₂⟩, hwrite⟩ := hsupplied
  obtain ⟨current, hcurrent⟩ := h.current
  have hfirst : ∃ b, w.newBuffer1 = some b := hspare1.imp fun _ hb => hb.1
  cases hnext : w.nextBuffer with
  | none =>
    have htwo : 2 ≤ (w.buffers ++ [current]).length := by
      have hpos := List.length_pos_iff.mpr (h.taken hnext)
      simp only [List.length_append, List.length_singleton]
      omega
    refine ⟨current, some b₂, none, hcurrent, ?_, hspare1, hfirst, ?_, by simp [exchanged],
      rfl, by simp [exchanged], .inr ⟨rfl, htwo⟩⟩
    · simp [swap, exchanged, hcurrent, hnext, hb₂, hwrite]
    · rintro b ⟨rfl⟩
      exact hempty₂
  | some b =>
    refine ⟨current, some b, some b₂, hcurrent, ?_, hspare1, hfirst, ?_, by simp [exchanged],
      rfl, by simp [exchanged], .inl ⟨b₂, rfl, hempty₂⟩⟩
    · simp [swap, exchanged, hcurrent, hnext, hb₂, hwrite]
    · rintro b' ⟨rfl⟩
      exact h.next b hnext

def counted (w : AsyncLogging SIZE) (now : Bytes) : AsyncLogging SIZE :=
  { w with
    rounds := w.rounds ++ [⟨w.buffersToWrite, now⟩]
    phase := .writing 0
    output := w.output ++ if 25 < w.buffersToWrite.length then
      droppedNotice now (w.buffersToWrite.length - 2) else []
    buffersToWrite := if 25 < w.buffersToWrite.length then w.buffersToWrite.take 2
      else w.buffersToWrite }

theorem check_spec (h : w.Stocked) (hphase : w.phase = .swapped) (now : Bytes) :
    w.check now = .ok (w.counted now) ∧ (w.counted now).Supplied := by
  have hsupplied := h.supplied
  simp only [Supplied, hphase] at hsupplied
  obtain ⟨hnone, hwrite, hspare⟩ := hsupplied
  rw [check, assertThat_pos (by simpa using hwrite), ok_bind, counted]
  dsimp only
  split_ifs with hmany
  · refine ⟨rfl, hnone, by simpa using hwrite, ?_⟩
    refine hspare.imp id fun ⟨hempty, _⟩ => ⟨hempty, ?_⟩
    rw [List.length_take]
    omega
  · exact ⟨by rw [List.append_nil]; rfl, hnone, hwrite, hspare⟩

theorem write_spec {i : ℕ} (hi : i < w.buffersToWrite.length) :
    w.write i = .ok { w with
      output := w.output ++ (w.buffersToWrite.get ⟨i, hi⟩).bytes, phase := .writing (i + 1) } := by
  rw [write, List.getElem?_eq_getElem hi]
  rfl

theorem reclaim_spec {slot : Option (FixedBuffer SIZE)} {buffers : List (FixedBuffer SIZE)}
    (h : Spare slot ∨ slot = none ∧ buffers ≠ []) :
    ∃ slot' buffers', reclaim slot buffers = .ok (slot', buffers') ∧ Spare slot' ∧
      buffers.length ≤ buffers'.length + 1 := by
  obtain ⟨b, rfl, hb⟩ | ⟨rfl, hne⟩ := h
  · exact ⟨_, _, rfl, ⟨b, rfl, hb⟩, Nat.le_succ _⟩
  · refine ⟨some (buffers.getLast hne).reset, buffers.dropLast, ?_, ⟨_, rfl, rfl⟩, ?_⟩
    · simp [reclaim, hne, List.getLast?_eq_some_getLast hne]
    · rw [List.length_dropLast]
      omega

theorem recycle_spec (h : w.Stocked) {i : ℕ} (hphase : w.phase = .writing i) :
    ∃ newBuffer1 newBuffer2, w.recycle = .ok { w with
        newBuffer1 := newBuffer1, newBuffer2 := newBuffer2, buffersToWrite := [],
        phase := .atHead } ∧
      Spare newBuffer1 ∧ Spare newBuffer2 := by
  have hsupplied := h.supplied
  simp only [Supplied, hphase] at hsupplied
  obtain ⟨hnone, hwrite, hspare⟩ := hsupplied
  have hpos := List.length_pos_iff.mpr hwrite
  have hfirst : (w.buffersToWrite.take 2).length = min 2 w.buffersToWrite.length :=
    List.length_take
  have havail₁ : Spare (none : Option (FixedBuffer SIZE)) ∨
      (none : Option (FixedBuffer SIZE)) = none ∧ w.buffersToWrite.take 2 ≠ [] :=
    .inr ⟨rfl, by simpa using hwrite⟩
  obtain ⟨slot₁, rest₁, hslot₁, hspare₁, hrest₁⟩ := reclaim_spec havail₁
  have havail₂ : Spare w.newBuffer2 ∨ w.newBuffer2 = none ∧ rest₁ ≠ [] :=
    hspare.imp id fun ⟨hempty, htwo⟩ => ⟨hempty, List.length_pos_iff.mp (by omega)⟩
  obtain ⟨slot₂, rest₂, hslot₂, hspare₂, -⟩ := reclaim_spec havail₂
  have htake : (if 2 < w.buffersToWrite.length then w.buffersToWrite.take 2 else w.buffersToWrite) =
      w.buffersToWrite.take 2 := by
    split_ifs with htwo
    · rfl
    · exact (List.take_of_length_le (by omega)).symm
  refine ⟨slot₁, slot₂, ?_, hspare₁, hspare₂⟩
  rw [recycle, htake, hnone, hslot₁, ok_bind]
  dsimp only
  rw [hslot₂, ok_bind]
  rfl

theorem Supplied.stop (h : w.Supplied) (hstarting : w.phase ≠ .starting) {stopCalled : Bool} :
    Supplied { w with running := false, stopCalled := stopCalled } := by
  unfold Supplied at h ⊢
  cases hphase : w.phase with
  | starting => exact absurd hphase hstarting
  | _ => simpa only [hphase] using h

theorem Stocked.step (h : w.Stocked) {a : LoggingStep} (ha : w.Admits a) :
    ∃ w', w.step a = .ok w' ∧ w'.Stocked := by
  cases a with
  | start =>
    have hsupplied := h.supplied
    rw [Supplied, show w.phase = .created from ha] at hsupplied
    exact ⟨_, rfl, h.current, h.next, h.taken, rfl, hsupplied⟩
  | append logline =>
    obtain ⟨current, next, buffers, heq, hnext, htaken, -⟩ := append_spec h logline
    exact ⟨_, heq, ⟨_, rfl⟩, hnext, htaken, h.supplied⟩
  | stop => exact ⟨_, rfl, h.current, h.next, h.taken, h.supplied.stop ha.2⟩
  | join => exact ⟨_, rfl, h.current, h.next, h.taken, h.supplied⟩
  | enter =>
    obtain ⟨heq, hsupplied⟩ := enter_spec h ha
    exact ⟨_, heq, h.current, h.next, h.taken, hsupplied⟩
  | test =>
    obtain ⟨phase, heq, -, hsupplied⟩ := test_spec h ha
    exact ⟨_, heq, h.current, h.next, h.taken, hsupplied⟩
  | lock =>
    have hphase : w.phase = .locking := ha
    show ∃ w', w.lock = .ok w' ∧ w'.Stocked
    unfold lock
    split_ifs
    · have hsupplied := h.supplied
      rw [Supplied, hphase] at hsupplied
      exact ⟨_, rfl, h.current, h.next, h.taken, hsupplied⟩
    · obtain ⟨current, next, newBuffer2, -, heq, -, hstocked⟩ := swap_spec h (.inl hphase)
      exact ⟨_, heq, hstocked⟩
  | wake =>
    obtain ⟨current, next, newBuffer2, -, heq, -, hstocked⟩ := swap_spec h (.inr ha)
    exact ⟨_, heq, hstocked⟩
  | check now =>
    obtain ⟨heq, hsupplied⟩ := check_spec h ha now
    exact ⟨_, heq, h.current, h.next, h.taken, hsupplied⟩
  | write i =>
    obtain ⟨hphase, hi⟩ := ha
    have hsupplied := h.supplied
    rw [Supplied, hphase] at hsupplied
    exact ⟨_, write_spec hi, h.current, h.next, h.taken, hsupplied⟩
  | recycle i =>
    obtain ⟨newBuffer1, newBuffer2, heq, hspare1, hspare2⟩ := recycle_spec h ha.1
    exact ⟨_, heq, h.current, h.next, h.taken, hspare1, hspare2, rfl⟩

/-- Lines of any length come at any time, and rounds may find nothing or drop buffers. No
assertion fails and no null pointer is used. At the head of every iteration the thread has
two empty buffers, and behind its writing there are enough to fill both slots again. -/
theorem spare_buffers_suffice (steps : List LoggingStep)
    (h : freeMachine.Permits (init : AsyncLogging SIZE) steps) :
    ∃ w : AsyncLogging SIZE, freeMachine.run init steps = .ok w ∧
      (∃ b, w.currentBuffer = some b) ∧
      (w.phase = .atHead → Spare w.newBuffer1 ∧ Spare w.newBuffer2 ∧ w.buffersToWrite = []) ∧
      ∀ i, w.phase = .writing i → w.buffersToWrite ≠ [] ∧
        (w.newBuffer2 = none → 2 ≤ w.buffersToWrite.length) ∧ ∃ w', w.recycle = .ok w' := by
  have hstep : ∀ (w : AsyncLogging SIZE) a, w.Stocked → freeMachine.Allows w a →
      ∃ w', freeMachine.step w a = .ok w' ∧ w'.Stocked := fun _ _ hw ha => hw.step ha
  obtain ⟨w, hrun, hw⟩ := freeMachine.run_safe hstep stocked_init h
  refine ⟨w, hrun, hw.current, fun hphase => ?_, fun i hphase => ?_⟩
  · have hsupplied := hw.supplied
    rwa [Supplied, hphase] at hsupplied
  · have hsupplied := hw.supplied
    rw [Supplied, hphase] at hsupplied
    obtain ⟨-, hwrite, hspare⟩ := hsupplied
    obtain ⟨newBuffer1, newBuffer2, heq, -⟩ := recycle_spec hw hphase
    refine ⟨hwrite, fun hnone => ?_, _, heq⟩
    obtain ⟨b, hb, -⟩ | ⟨-, htwo⟩ := hspare
    · cases hb.symm.trans hnone
    · exact htwo

/-- Buffers of two bytes. A round times out with nothing to write. Then 27 lines come before
the next one, which drops buffers, and one that is too long. -/
def crowdedSteps : List LoggingStep :=
  List.flatten [[.start, .enter, .test, .lock, .wake, .check [], .write 0, .recycle 1, .test],
    List.replicate 27 (.append [7]),
    [.append [1, 2, 3], .lock, .check [], .write 0, .append [8], .write 1, .recycle 2]]

theorem spare_buffers_suffice_crowded :
    freeMachine.Permits (init : AsyncLogging 2) crowdedSteps ∧
      ∃ w : AsyncLogging 2, freeMachine.run init crowdedSteps = .ok w ∧
        Spare w.newBuffer1 ∧ Spare w.newBuffer2 ∧ w.buffersToWrite = [] := by
  have hp : freeMachine.Permits (init : AsyncLogging 2) crowdedSteps := by decide +kernel
  have hphase : (freeMachine.run (init : AsyncLogging 2) crowdedSteps).toOption.map (·.phase) =
      some .atHead := by decide +kernel
  obtain ⟨w, hw, -, hhead, -⟩ := spare_buffers_suffice crowdedSteps hp
  rw [hw] at hphase
  exact ⟨hp, w, hw, hhead (Option.some.inj hphase)⟩

section Lines

variable (w)

/-- The rest of `buffersToWrite` that was not handed to the file yet. -/
def unwritten : List (FixedBuffer SIZE) :=
  match w.phase with
  | .swapped => w.buffersToWrite
  | .writing i => w.buffersToWrite.drop i
  | _ => []

def unchecked : List (FixedBuffer SIZE) :=
  match w.phase with
  | .swapped => w.buffersToWrite
  | _ => []

/-- What holds between any two steps. -/
structure Sound (w : AsyncLogging SIZE) : Prop where
  current : ∃ b, w.currentBuffer = some b
  next : ∀ b, w.nextBuffer = some b → b.cur = 0
  taken : w.nextBuffer = none → w.buffers ≠ []
  supplied : w.Supplied
  joined : w.joined = true → w.phase = .left
  written : w.output ++ bytesOf w.unwritten =
    w.rounds.flatMap LoggingRound.handed ++ bytesOf w.unchecked
  order : (w.rounds.flatMap fun r => bytesOf r.found) ++ (bytesOf w.unchecked ++ w.pending) =
    w.lines.flatten

end Lines

theorem Sound.stocked (h : w.Sound) : w.Stocked := ⟨h.current, h.next, h.taken, h.supplied⟩

theorem Stocked.sound (h : w.Stocked) (hjoined : w.joined = true → w.phase = .left)
    (hwritten : w.output ++ bytesOf w.unwritten =
      w.rounds.flatMap LoggingRound.handed ++ bytesOf w.unchecked)
    (horder : (w.rounds.flatMap fun r => bytesOf r.found) ++ (bytesOf w.unchecked ++ w.pending) =
      w.lines.flatten) : w.Sound :=
  ⟨h.current, h.next, h.taken, h.supplied, hjoined, hwritten, horder⟩

theorem sound_init : (init : AsyncLogging SIZE).Sound :=
  stocked_init.sound (fun h => by cases h) rfl rfl

theorem Sound.append (h : w.Sound) (hline : logline.length < SIZE) :
    ∃ w', w.append logline = .ok w' ∧ w'.Sound := by
  obtain ⟨current, next, buffers, heq, hnext, htaken, hpending⟩ := append_spec h.stocked logline
  refine ⟨_, heq, ⟨_, rfl⟩, hnext, htaken, h.supplied, h.joined, h.written, ?_⟩
  have horder := h.order
  rw [List.flatten_append, ← horder, List.append_assoc, List.append_assoc]
  simpa [pending, unchecked] using hpending hline

/-- The thread has nothing in `buffersToWrite` that it still has to write. -/
def idle : LoggingPhase → Bool
  | .swapped | .writing _ => false
  | _ => true

theorem unwritten_of_idle (h : idle w.phase = true) : w.unwritten = [] := by
  unfold unwritten
  split
  · next hphase => simp [hphase, idle] at h
  · next hphase => simp [hphase, idle] at h
  · rfl

theorem unchecked_of_ne (h : w.phase ≠ .swapped) : w.unchecked = [] := by
  unfold unchecked
  split
  · next hphase => exact absurd hphase h
  · rfl

theorem ne_swapped_of_idle {phase : LoggingPhase} (h : idle phase = true) : phase ≠ .swapped := by
  rintro rfl
  cases h

theorem Sound.turn (h : w.Sound) (hidle : idle w.phase = true) {running : Bool}
    {newBuffer1 newBuffer2 : Option (FixedBuffer SIZE)} {phase : LoggingPhase}
    (hidle' : idle phase = true) (hjoined : w.joined = true → phase = .left)
    (hsupplied : Supplied { w with
      running := running, newBuffer1 := newBuffer1, newBuffer2 := newBuffer2, phase := phase }) :
    Sound { w with
      running := running, newBuffer1 := newBuffer1, newBuffer2 := newBuffer2, phase := phase } := by
  have hwritten := h.written
  have horder := h.order
  rw [unwritten_of_idle hidle, unchecked_of_ne (ne_swapped_of_idle hidle)] at hwritten
  rw [unchecked_of_ne (ne_swapped_of_idle hidle)] at horder
  refine ⟨h.current, h.next, h.taken, hsupplied, hjoined, ?_, ?_⟩
  · rw [unwritten_of_idle hidle', unchecked_of_ne (ne_swapped_of_idle hidle')]
    exact hwritten
  · rw [unchecked_of_ne (ne_swapped_of_idle hidle')]
    exact horder

theorem Sound.not_joined (h : w.Sound) (hphase : w.phase ≠ .left) : ¬ w.joined = true :=
  fun hjoined => hphase (h.joined hjoined)

/-- All that was pending is the thread's, and nothing is pending. -/
theorem Sound.swap (h : w.Sound) (hphase : w.phase = .locking ∨ w.phase = .waiting) :
    ∃ w', w.swap = .ok w' ∧ w'.Sound ∧ w'.phase = .swapped ∧ w'.running = w.running ∧
      w'.pending = [] := by
  have hidle : idle w.phase = true := by obtain hphase | hphase := hphase <;> simp [hphase, idle]
  have hleft : w.phase ≠ .left := by obtain hphase | hphase := hphase <;> simp [hphase]
  obtain ⟨current, next, newBuffer2, hcurrent, heq, ⟨b₁, hb₁, hempty₁⟩, hstocked⟩ :=
    swap_spec h.stocked hphase
  have hwritten := h.written
  have horder := h.order
  rw [unwritten_of_idle hidle, unchecked_of_ne (ne_swapped_of_idle hidle), bytesOf_nil,
    List.append_nil, List.append_nil] at hwritten
  rw [unchecked_of_ne (ne_swapped_of_idle hidle), bytesOf_nil, List.nil_append] at horder
  refine ⟨_, heq, hstocked.sound ?_ ?_ ?_, rfl, rfl, ?_⟩
  · exact fun hj => absurd hj (h.not_joined hleft)
  · simp [exchanged, unwritten, unchecked, hwritten]
  · simpa [exchanged, unchecked, pending, hb₁, FixedBuffer.bytes_eq_nil hempty₁, hcurrent]
      using horder
  · simp [exchanged, pending, hb₁, FixedBuffer.bytes_eq_nil hempty₁]

theorem Sound.check (h : w.Sound) (hphase : w.phase = .swapped) (now : Bytes) :
    ∃ w', w.check now = .ok w' ∧ w'.Sound := by
  obtain ⟨heq, hsupplied⟩ := check_spec h.stocked hphase now
  have hjoined := h.not_joined (by simp [hphase])
  have hwritten := h.written
  have horder := h.order
  simp only [unwritten, unchecked, hphase, List.append_cancel_right_eq] at hwritten
  simp only [unchecked, hphase] at horder
  refine ⟨_, heq, h.current, h.next, h.taken, hsupplied, fun hj => absurd hj hjoined, ?_, ?_⟩
  · by_cases hmany : 25 < w.buffersToWrite.length
    · simp [counted, unwritten, unchecked, LoggingRound.handed, hmany, hwritten]
    · simp [counted, unwritten, unchecked, LoggingRound.handed, hmany, hwritten]
  · simpa [counted, unchecked, pending] using horder

theorem Sound.write (h : w.Sound) {i : ℕ} (hphase : w.phase = .writing i)
    (hi : i < w.buffersToWrite.length) : ∃ w', w.write i = .ok w' ∧ w'.Sound := by
  have hsupplied := h.supplied
  simp only [Supplied, hphase] at hsupplied
  have hjoined := h.not_joined (by simp [hphase])
  have hwritten := h.written
  have horder := h.order
  simp only [unwritten, unchecked, hphase] at hwritten
  simp only [unchecked, hphase] at horder
  rw [List.drop_eq_getElem_cons hi, bytesOf_cons, ← List.append_assoc] at hwritten
  exact ⟨_, write_spec hi, h.current, h.next, h.taken, hsupplied, fun hj => absurd hj hjoined,
    hwritten, horder⟩

theorem Sound.recycle (h : w.Sound) {i : ℕ} (hphase : w.phase = .writing i)
    (hi : w.buffersToWrite.length ≤ i) : ∃ w', w.recycle = .ok w' ∧ w'.Sound := by
  obtain ⟨newBuffer1, newBuffer2, heq, hspare1, hspare2⟩ := recycle_spec h.stocked hphase
  have hjoined := h.not_joined (by simp [hphase])
  have hwritten := h.written
  have horder := h.order
  simp only [unwritten, unchecked, hphase, List.drop_eq_nil_of_le hi] at hwritten
  simp only [unchecked, hphase] at horder
  exact ⟨_, heq, h.current, h.next, h.taken, ⟨hspare1, hspare2, rfl⟩, fun hj => absurd hj hjoined,
    hwritten, horder⟩

theorem Sound.step (h : w.Sound) {a : LoggingStep} (ha : w.Allows a) :
    ∃ w', w.step a = .ok w' ∧ w'.Sound := by
  have hturn : ∀ {w'}, w.step a = .ok w' → w'.Supplied := by
    intro w' hw'
    obtain ⟨w₁, hw₁, hstocked⟩ := h.stocked.step ha.admits
    cases hw₁.symm.trans hw'
    exact hstocked.supplied
  cases a with
  | start =>
    have hjoined := h.not_joined (by simp [show w.phase = .created from ha])
    exact ⟨_, rfl, h.turn (by simp [show w.phase = .created from ha, idle]) rfl
      (fun hj => absurd hj hjoined) (hturn rfl)⟩
  | append logline => exact h.append ha
  | stop =>
    exact ⟨_, rfl, h.current, h.next, h.taken, hturn rfl, h.joined, h.written, h.order⟩
  | join =>
    obtain ⟨-, hleft⟩ := ha
    exact ⟨_, rfl, h.current, h.next, h.taken, h.supplied, fun _ => hleft, h.written, h.order⟩
  | enter =>
    have hphase : w.phase = .starting := ha
    have hjoined := h.not_joined (by simp [hphase])
    have heq := (enter_spec h.stocked hphase).1
    exact ⟨_, heq, h.turn (by simp [hphase, idle]) rfl (fun hj => absurd hj hjoined) (hturn heq)⟩
  | test =>
    have hphase : w.phase = .atHead := ha
    have hjoined := h.not_joined (by simp [hphase])
    obtain ⟨phase, heq, hnext, hsupplied⟩ := test_spec h.stocked hphase
    refine ⟨_, heq, h.turn (by simp [hphase, idle]) ?_ (fun hj => absurd hj hjoined) hsupplied⟩
    obtain rfl | rfl := hnext <;> rfl
  | lock =>
    have hphase : w.phase = .locking := ha
    have hjoined := h.not_joined (by simp [hphase])
    by_cases hempty : w.buffers.isEmpty = true
    · have heq : w.lock = .ok { w with phase := .waiting } := if_pos hempty
      exact ⟨_, heq, h.turn (by simp [hphase, idle]) rfl (fun hj => absurd hj hjoined)
        (hturn heq)⟩
    · have heq : w.lock = w.swap := if_neg hempty
      obtain ⟨w', hw', hs, -⟩ := h.swap (.inl hphase)
      exact ⟨w', heq.trans hw', hs⟩
  | wake =>
    obtain ⟨w', hw', hs, -⟩ := h.swap (.inr ha)
    exact ⟨w', hw', hs⟩
  | check now => exact h.check ha now
  | write i => exact h.write ha.1 ha.2
  | recycle i => exact h.recycle ha.1 ha.2

theorem handed_of_few {r : LoggingRound SIZE} (h : r.found.length ≤ 25) :
    r.handed = bytesOf r.found := by
  rw [LoggingRound.handed, if_neg (by omega)]

theorem handed_of_rounds {rounds : List (LoggingRound SIZE)}
    (h : ∀ r ∈ rounds, r.found.length ≤ 25) :
    rounds.flatMap LoggingRound.handed = rounds.flatMap fun r => bytesOf r.found :=
  List.flatMap_congr fun r hr => handed_of_few (h r hr)

theorem sound_run {steps : List LoggingStep}
    (h : machine.Permits (init : AsyncLogging SIZE) steps) :
    ∃ w : AsyncLogging SIZE, machine.run init steps = .ok w ∧ w.Sound := by
  have hstep : ∀ (w : AsyncLogging SIZE) a, w.Sound → machine.Allows w a →
      ∃ w', machine.step w a = .ok w' ∧ w'.Sound := fun _ _ hs ha => hs.step ha
  exact machine.run_safe hstep sound_init h

theorem swap_lines {w' : AsyncLogging SIZE} (hw' : w.swap = .ok w') : w'.lines = w.lines := by
  unfold swap at hw'
  split at hw'
  · cases hw'
  · dsimp only at hw'
    split_ifs at hw' <;> cases hw' <;> rfl

theorem append_lines {w' : AsyncLogging SIZE} {logline : Bytes}
    (hw' : w.append logline = .ok w') : w'.lines = w.lines ++ [logline] := by
  unfold append at hw'
  split at hw'
  · cases hw'
  · dsimp only at hw'
    split_ifs at hw' <;> cases hw' <;> rfl

theorem step_lines_of_none {w' : AsyncLogging SIZE} {a : LoggingStep} (ha : a.appended = none)
    (hw' : w.step a = .ok w') : w'.lines = w.lines := by
  cases a with
  | append logline => cases ha
  | start | stop | join =>
    cases hw'
    rfl
  | enter =>
    obtain ⟨_, -, hw'⟩ := bind_eq_ok.mp hw'
    cases hw'
    rfl
  | test =>
    rw [step, test] at hw'
    split_ifs at hw'
    · obtain ⟨_, -, hw'⟩ := bind_eq_ok.mp hw'
      obtain ⟨_, -, hw'⟩ := bind_eq_ok.mp hw'
      obtain ⟨_, -, hw'⟩ := bind_eq_ok.mp hw'
      cases hw'
      rfl
    · cases hw'
      rfl
  | lock =>
    rw [step, lock] at hw'
    split_ifs at hw'
    · cases hw'
      rfl
    · exact swap_lines hw'
  | wake => exact swap_lines hw'
  | check now =>
    obtain ⟨_, -, hw'⟩ := bind_eq_ok.mp hw'
    dsimp only at hw'
    split_ifs at hw' <;> cases hw' <;> rfl
  | write i =>
    rw [step, write] at hw'
    split at hw'
    · cases hw'
    · cases hw'
      rfl
  | recycle i =>
    obtain ⟨_, -, hw'⟩ := bind_eq_ok.mp hw'
    obtain ⟨_, -, hw'⟩ := bind_eq_ok.mp hw'
    cases hw'
    rfl

theorem step_lines {w' : AsyncLogging SIZE} {a : LoggingStep} (hw' : w.step a = .ok w') :
    w'.lines = w.lines ++ a.appended.toList := by
  cases ha : a.appended with
  | none =>
    rw [step_lines_of_none ha hw']
    exact (List.append_nil _).symm
  | some logline =>
    cases a <;> cases ha
    exact append_lines hw'

/-- However the threads interleave: what the file got, what is still to be written, the
filled buffers and the current one are the lines in the order in which they were
appended, except for the buffers beyond the second of a round that found more than 25
and wrote its notice. -/
theorem lines_are_kept_in_order (steps : List LoggingStep)
    (h : machine.Permits (init : AsyncLogging SIZE) steps) :
    ∃ w : AsyncLogging SIZE, machine.run init steps = .ok w ∧
      (∃ tail, w.output ++ bytesOf w.unwritten ++ bytesOf w.buffers ++
            bytesOf w.currentBuffer.toList =
          w.rounds.flatMap LoggingRound.handed ++ tail ∧
        w.lines.flatten = (w.rounds.flatMap fun r => bytesOf r.found) ++ tail) ∧
      ((∀ r ∈ w.rounds, r.found.length ≤ 25) →
        w.output ++ bytesOf w.unwritten ++ bytesOf w.buffers ++ bytesOf w.currentBuffer.toList =
          w.lines.flatten) ∧
      w.lines = steps.filterMap LoggingStep.appended := by
  obtain ⟨w, hw, hs⟩ := sound_run h
  have hall : w.output ++ bytesOf w.unwritten ++ bytesOf w.buffers ++
      bytesOf w.currentBuffer.toList =
      w.rounds.flatMap LoggingRound.handed ++ (bytesOf w.unchecked ++ w.pending) := by
    rw [hs.written, pending]
    simp only [List.append_assoc]
  refine ⟨w, hw, ⟨_, hall, hs.order.symm⟩, fun hfew => ?_, ?_⟩
  · rw [hall, handed_of_rounds hfew, hs.order]
  · have hstep : ∀ (w : AsyncLogging SIZE) past a w',
        w.lines = past.filterMap LoggingStep.appended → machine.Allows w a →
        machine.step w a = .ok w' → w'.lines = (past ++ [a]).filterMap LoggingStep.appended := by
      intro w past a w' hpast _ hw'
      rw [step_lines hw', hpast, List.filterMap_append, List.filterMap_eq_flatMap_toList _ [a],
        List.flatMap_singleton]
    exact machine.run_history hstep rfl h hw

/-- Buffers of four bytes. While the thread is busy with the first line, two more fill
the current buffer and the next one, and a fourth line comes behind them. -/
def overflowingSteps : List LoggingStep :=
  [.start, .append [1, 2], .enter, .test, .lock, .wake, .append [3, 4, 5], .append [6],
    .check [], .append [7, 8, 9], .write 0, .recycle 1, .test, .append [10], .lock, .check []]

theorem lines_are_kept_in_order_overflow :
    machine.Permits (init : AsyncLogging 4) overflowingSteps ∧
    ∃ w : AsyncLogging 4, machine.run init overflowingSteps = .ok w ∧
      (∃ tail, w.output ++ bytesOf w.unwritten ++ bytesOf w.buffers ++
            bytesOf w.currentBuffer.toList =
          w.rounds.flatMap LoggingRound.handed ++ tail ∧
        w.lines.flatten = (w.rounds.flatMap fun r => bytesOf r.found) ++ tail) ∧
      ((∀ r ∈ w.rounds, r.found.length ≤ 25) →
        w.output ++ bytesOf w.unwritten ++ bytesOf w.buffers ++ bytesOf w.currentBuffer.toList =
          w.lines.flatten) ∧
      w.lines = [[1, 2], [3, 4, 5], [6], [7, 8, 9], [10]] :=
  have hp : machine.Permits (init : AsyncLogging 4) overflowingSteps := by decide +kernel
  ⟨hp, lines_are_kept_in_order overflowingSteps hp⟩

/-- The thread is behind its test of `running_` and in front of the exchange. -/
def beforeSwap : LoggingPhase → Bool
  | .locking | .waiting => true
  | _ => false

/-- `start` has returned. -/
def started : LoggingPhase → Bool
  | .created | .starting => false
  | _ => true

/-- The thread will take what is pending, or nothing is. -/
def Collects (w : AsyncLogging SIZE) : Prop := beforeSwap w.phase = true ∨ w.pending = []

/-- Behind `stop`, while no lines come. -/
structure Stopping (collects : Prop) (w : AsyncLogging SIZE) : Prop where
  sound : w.Sound
  halted : w.running = false
  begun : started w.phase = true
  collects_iff : w.Collects ↔ collects

variable {w' : AsyncLogging SIZE} {collects : Prop}

theorem collects_iff_of_not_before (h : beforeSwap w.phase = false) :
    w.Collects ↔ w.pending = [] := by
  simp [Collects, h]

theorem Stopping.of_frame (h : w.Stopping collects) (hs : w'.Sound)
    (hrunning : w'.running = w.running) (hpending : w'.pending = w.pending)
    (hbefore : beforeSwap w.phase = false) (hbefore' : beforeSwap w'.phase = false)
    (hstarted : started w'.phase = true) : w'.Stopping collects := by
  refine ⟨hs, hrunning.trans h.halted, hstarted, ?_⟩
  rw [← h.collects_iff, collects_iff_of_not_before hbefore, collects_iff_of_not_before hbefore',
    hpending]

theorem Stopping.swap (h : w.Stopping collects) (hphase : w.phase = .locking ∨ w.phase = .waiting)
    (hw' : w.swap = .ok w') : w'.Stopping collects := by
  obtain ⟨w₁, hw₁, hs, hswapped, hrunning, hpending⟩ := h.sound.swap hphase
  cases hw₁.symm.trans hw'
  have hcollects : collects := h.collects_iff.mp (.inl (by
    obtain hphase | hphase := hphase <;> simp [hphase, beforeSwap]))
  exact ⟨hs, hrunning.trans h.halted, by simp [hswapped, started],
    iff_of_true (.inr hpending) hcollects⟩

theorem Stopping.step (h : w.Stopping collects) {a : LoggingStep}
    (hquiet : ∀ logline, a ≠ .append logline) (ha : w.Allows a) (hw' : w.step a = .ok w') :
    w'.Stopping collects := by
  obtain ⟨w₁, hw₁, hs⟩ := h.sound.step ha
  cases hw₁.symm.trans hw'
  cases a with
  | start =>
    have hbegun := h.begun
    rw [show w.phase = .created from ha] at hbegun
    cases hbegun
  | append logline => exact absurd rfl (hquiet logline)
  | stop =>
    cases hw'
    exact ⟨hs, rfl, h.begun, h.collects_iff⟩
  | join =>
    cases hw'
    exact ⟨hs, h.halted, h.begun, h.collects_iff⟩
  | enter =>
    have hbegun := h.begun
    rw [show w.phase = .starting from ha] at hbegun
    cases hbegun
  | test =>
    have hphase : w.phase = .atHead := ha
    have hleaves : w.test = .ok { w with phase := .left } := by
      rw [AsyncLogging.test, if_neg (by simp [h.halted])]
    cases hleaves.symm.trans hw'
    exact h.of_frame hs rfl rfl (by simp [hphase, beforeSwap]) rfl rfl
  | lock =>
    have hphase : w.phase = .locking := ha
    have hw' : w.lock = .ok w' := hw'
    unfold AsyncLogging.lock at hw'
    split_ifs at hw'
    · cases hw'
      have hcollects : collects := h.collects_iff.mp (.inl (by simp [hphase, beforeSwap]))
      exact ⟨hs, h.halted, rfl, iff_of_true (.inl rfl) hcollects⟩
    · exact h.swap (.inl hphase) hw'
  | wake => exact h.swap (.inr ha) hw'
  | check now =>
    have hphase : w.phase = .swapped := ha
    cases (check_spec h.sound.stocked hphase now).1.symm.trans hw'
    exact h.of_frame hs rfl rfl (by simp [hphase, beforeSwap]) rfl rfl
  | write i =>
    obtain ⟨hphase, hi⟩ := ha
    cases (write_spec hi).symm.trans hw'
    exact h.of_frame hs rfl rfl (by simp [hphase, beforeSwap]) rfl rfl
  | recycle i =>
    obtain ⟨hphase, -⟩ := ha
    obtain ⟨newBuffer1, newBuffer2, heq, -⟩ := recycle_spec h.sound.stocked hphase
    cases heq.symm.trans hw'
    exact h.of_frame hs rfl rfl (by simp [hphase, beforeSwap]) rfl rfl

theorem Sound.stopping (h : w.Sound) (ha : w.Allows .stop) :
    Stopping w.Collects { w with running := false, stopCalled := true } := by
  obtain ⟨w₁, hw₁, hs⟩ := h.step ha
  cases hw₁
  obtain ⟨hcreated, hstarting, -⟩ := ha
  refine ⟨hs, rfl, ?_, Iff.rfl⟩
  cases hphase : w.phase with
  | created => exact absurd hphase hcreated
  | starting => exact absurd hphase hstarting
  | _ => simp [started]

/-- When the thread has left, the file has all lines but the pending ones. -/
theorem Sound.output_of_left (h : w.Sound) (hleft : w.phase = .left)
    (hfew : ∀ r ∈ w.rounds, r.found.length ≤ 25) : w.output ++ w.pending = w.lines.flatten := by
  have hwritten := h.written
  have horder := h.order
  simp only [unwritten, unchecked, hleft, bytesOf_nil, List.append_nil] at hwritten
  simp only [unchecked, hleft, bytesOf_nil, List.nil_append] at horder
  rw [hwritten, handed_of_rounds hfew, horder]

/-- No line is appended behind `stop`, and no buffers were dropped. When the thread has
been joined, the file has all lines if and only if, at the time of `stop`, the thread was
between its test and the exchange, or nothing was pending. -/
theorem stop_flushes_iff (before after : List LoggingStep) (w w' : AsyncLogging SIZE)
    (h : machine.Permits (init : AsyncLogging SIZE) (before ++ .stop :: after))
    (hw : machine.run init before = .ok w)
    (hw' : machine.run init (before ++ .stop :: after) = .ok w')
    (hquiet : ∀ a ∈ after, ∀ logline, a ≠ .append logline)
    (hjoined : w'.joined = true) (hfew : ∀ r ∈ w'.rounds, r.found.length ≤ 25) :
    w'.output = w'.lines.flatten ↔ w.Collects := by
  obtain ⟨hbefore, hafter⟩ := machine.permits_append.mp h
  have hs : w.Sound := by
    obtain ⟨w₁, hw₁, hs⟩ := sound_run hbefore
    cases hw₁.symm.trans hw
    exact hs
  have hstop : machine.step w .stop = .ok { w with running := false, stopCalled := true } := rfl
  obtain ⟨hallows, hrest⟩ := (machine.permits_cons_ok hstop).mp (hafter w hw)
  rw [machine.run_append _ hw, machine.run_cons_ok _ hstop] at hw'
  have hend : w'.Stopping w.Collects :=
    machine.run_keeps_of_forall (fun _ _ _ hq hst ha hst' => Stopping.step hst hq ha hst')
      (hs.stopping hallows) hquiet hrest hw'
  have hleft := hend.sound.joined hjoined
  rw [← hend.collects_iff, collects_iff_of_not_before (by simp [hleft, beforeSwap]),
    ← hend.sound.output_of_left hleft hfew]
  simp

/-- The thread takes what there is and a line comes before `stop` is called. Seeing
`running_ == false` at the head of its loop, the thread leaves. -/
def lateSteps (late : Bool) : List LoggingStep :=
  [.start, .enter, .test, .lock] ++
    if late then [.wake, .append [1, 2, 3], .stop, .check [], .write 0, .recycle 1, .test, .join]
    else [.append [1, 2, 3], .stop, .wake, .check [], .write 0, .recycle 1, .test, .join]

/-- The line is lost. -/
theorem line_behind_the_last_round_is_lost :
    machine.Permits (init : AsyncLogging kLargeBuffer) (lateSteps true) ∧
      ∃ w : AsyncLogging kLargeBuffer, machine.run init (lateSteps true) = .ok w ∧
        w.joined = true ∧ (∀ r ∈ w.rounds, r.found.length ≤ 25) ∧
        w.lines = [[1, 2, 3]] ∧ w.output = [] := by
  refine ⟨by decide +kernel, ?_⟩
  have hend : (machine.run (init : AsyncLogging kLargeBuffer) (lateSteps true)).toOption.map
      (fun w => decide (w.joined = true ∧ (∀ r ∈ w.rounds, r.found.length ≤ 25) ∧
        w.lines = [[1, 2, 3]] ∧ w.output = [])) = some true := by decide +kernel
  obtain ⟨w, hw, hw'⟩ := exists_ok_of_map hend
  exact ⟨w, hw, of_decide_eq_true hw'⟩

/-- With `stop` before the exchange it is written. -/
theorem stop_flushes_iff_waiting :
    machine.Permits (init : AsyncLogging kLargeBuffer) (lateSteps false) ∧
      ∃ w' : AsyncLogging kLargeBuffer, machine.run init (lateSteps false) = .ok w' ∧
        w'.joined = true ∧ w'.output = w'.lines.flatten := by
  have hp : machine.Permits (init : AsyncLogging kLargeBuffer) (lateSteps false) := by
    decide +kernel
  have hbefore : (machine.run (init : AsyncLogging kLargeBuffer)
      [.start, .enter, .test, .lock, .append [1, 2, 3]]).toOption.map (·.phase) =
        some .waiting := by decide +kernel
  have hend : (machine.run (init : AsyncLogging kLargeBuffer) (lateSteps false)).toOption.map
      (fun w => decide (w.joined = true ∧ ∀ r ∈ w.rounds, r.found.length ≤ 25)) = some true := by
    decide +kernel
  obtain ⟨w, hw, hphase⟩ := exists_ok_of_map hbefore
  obtain ⟨w', hw', hprops⟩ := exists_ok_of_map hend
  obtain ⟨hjoined, hfew⟩ := of_decide_eq_true hprops
  have hquiet : ∀ a ∈ [.wake, .check [], .write 0, .recycle 1, .test, .join],
      ∀ logline, a ≠ LoggingStep.append logline := by
    simp
  exact ⟨hp, w', hw', hjoined,
    (stop_flushes_iff _ _ w w' hp hw hw' hquiet hjoined hfew).mpr (.inl (by rw [hphase]; rfl))⟩

end AsyncLogging
end Muduo
