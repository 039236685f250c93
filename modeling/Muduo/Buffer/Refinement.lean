import Muduo.Buffer.Basic

/-!
# A buffer is a byte list

Any number of buffers are used together. An operation addresses one of them,
and `swap` exchanges two. Each buffer stands for its readable bytes alone: on
them `append` adds at the end, `prepend` at the front, `retrieve` drops from
the front and `unwrite` from the end, and reserving or giving back space is
invisible. Only the preconditions that the operations themselves assert are
asked of their callers.
-/

namespace Muduo.Buffer

open Foundations

/-- The operations on one buffer. The pointer that `retrieveUntil` takes is
given by its distance from `peek()`, and `fill` stands for writing bytes at
`beginWrite()` and reporting them with `hasWritten`. -/
inductive Op where
  | append (data : List UInt8)
  | prepend (data : List UInt8)
  | retrieve (len : ℕ)
  | retrieveUntil (offset : ℕ)
  | retrieveAll
  | retrieveAsString (len : ℕ)
  | unwrite (len : ℕ)
  | ensureWritableBytes (len : ℕ)
  | fill (data : List UInt8)
  | shrink (reserve : ℕ)
  | readFd (answer : ReadAnswer)
  deriving DecidableEq

namespace Op

def exec (b : Buffer) : Op → Except Fault Buffer
  | append data => b.append data
  | prepend data => b.prepend data
  | retrieve len => b.retrieve len
  | retrieveUntil offset => b.retrieveUntil (b.peek + offset)
  | retrieveAll => .ok b.retrieveAll
  | retrieveAsString len => do
    let (_, b) ← b.retrieveAsString len
    return b
  | unwrite len => b.unwrite len
  | ensureWritableBytes len => b.ensureWritableBytes len
  | fill data => do
    let b ← b.copyToWritable data
    b.hasWritten data.length
  | shrink reserve => b.shrink reserve
  | readFd answer => do
    let (_, _, b) ← b.readFd answer
    return b

/-- What the operation asserts on entry. For `readFd` it is the bound that the
kernel keeps, and `shrink` casts the length of the content to `int`. -/
def Pre (b : Buffer) : Op → Prop
  | append _ => True
  | prepend data => data.length ≤ b.prependableBytes
  | retrieve len => len ≤ b.readableBytes
  | retrieveUntil offset => b.peek + offset ≤ b.beginWrite
  | retrieveAll => True
  | retrieveAsString len => len ≤ b.readableBytes
  | unwrite len => len ≤ b.readableBytes
  | ensureWritableBytes _ => True
  | fill data => data.length ≤ b.writableBytes
  | shrink _ => b.readableBytes < 2 ^ 31
  | readFd (.failed _) => True
  | readFd (.bytes data) => data.length ≤ b.writableBytes + extrabufSize

instance (b : Buffer) : (op : Op) → Decidable (op.Pre b)
  | append _ | retrieveAll | ensureWritableBytes _ | readFd (.failed _) => .isTrue trivial
  | prepend _ | retrieve _ | retrieveUntil _ | retrieveAsString _ | unwrite _ | fill _
  | shrink _ | readFd (.bytes _) => Nat.decLe _ _

def onList (c : List UInt8) : Op → List UInt8
  | append data => c ++ data
  | prepend data => data ++ c
  | retrieve len => c.drop len
  | retrieveUntil offset => c.drop offset
  | retrieveAll => []
  | retrieveAsString len => c.drop len
  | unwrite len => c.take (c.length - len)
  | ensureWritableBytes _ => c
  | fill data => c ++ data
  | shrink _ => c
  | readFd (.failed _) => c
  | readFd (.bytes data) => c ++ data

theorem exec_spec (b : Buffer) (op : Op) (h : op.Pre b) :
    ∃ b', op.exec b = .ok b' ∧ b'.contents = op.onList b.contents := by
  cases op with
  | append data =>
    obtain ⟨b', hb, hc, -⟩ := b.append_spec data
    exact ⟨b', hb, hc⟩
  | prepend data => exact prepend_spec h
  | retrieve len => exact retrieve_spec h
  | retrieveUntil offset =>
    apply retrieveUntil_spec
    change b.peek + offset ≤ b.beginWrite at h
    unfold peek beginWrite at h
    unfold readableBytes
    omega
  | retrieveAll => exact ⟨_, rfl, b.contents_retrieveAll⟩
  | retrieveAsString len =>
    obtain ⟨b', hb, hc⟩ := retrieveAsString_spec h
    exact ⟨b', by simp [exec, hb], hc⟩
  | unwrite len => exact unwrite_spec h
  | ensureWritableBytes len =>
    obtain ⟨b', hb, hc, -, -⟩ := b.ensureWritableBytes_spec len
    exact ⟨b', hb, hc⟩
  | fill data =>
    obtain ⟨b', hb, hw, -, hadv⟩ := copyToWritable_spec h
    have hfit : data.length ≤ b'.writableBytes := hw ▸ h
    exact ⟨b'.advance data.length hfit, by simp [exec, hb, hasWritten, hfit], hadv _ hfit rfl⟩
  | shrink reserve => exact shrink_spec reserve h
  | readFd answer =>
    cases answer with
    | failed errno => exact ⟨b, rfl, rfl⟩
    | bytes data =>
      obtain ⟨b', hb, hc⟩ := b.readFd_spec data
      exact ⟨b', by simp [exec, hb], hc⟩

end Op

variable {ι : Type} [DecidableEq ι]

inductive Step (ι : Type) where
  | on (i : ι) (op : Op)
  | swap (i j : ι)

/-- `a.swap(b)` exchanges all three members. -/
def exchange {α : Type*} (s : ι → α) (i j : ι) : ι → α := s ∘ Equiv.swap i j

/-- All the buffers of a program and the calls made on them. -/
def machine (ι : Type) [DecidableEq ι] : Machine (ι → Buffer) (Step ι) Fault where
  Allows s
    | .on i op => op.Pre (s i)
    | .swap _ _ => True
  step s
    | .on i op => do
      let b ← op.exec (s i)
      return Function.update s i b
    | .swap i j => .ok (exchange s i j)

instance (s : ι → Buffer) : (step : Step ι) → Decidable ((machine ι).Allows s step)
  | .on i op => inferInstanceAs (Decidable (op.Pre (s i)))
  | .swap _ _ => .isTrue trivial

def stepOnLists (t : ι → List UInt8) : Step ι → ι → List UInt8
  | .on i op => Function.update t i (op.onList (t i))
  | .swap i j => exchange t i j

def Holds (s : ι → Buffer) (t : ι → List UInt8) : Prop := ∀ i, (s i).contents = t i

theorem step_holds (s : ι → Buffer) (t : ι → List UInt8) (step : Step ι) (hst : Holds s t)
    (ha : (machine ι).Allows s step) :
    ∃ s', (machine ι).step s step = .ok s' ∧ Holds s' (stepOnLists t step) := by
  cases step with
  | on i op =>
    obtain ⟨b, hb, hc⟩ := op.exec_spec (s i) ha
    refine ⟨Function.update s i b, by simp [machine, hb], ?_⟩
    intro k
    by_cases hk : k = i
    · subst k
      simp [stepOnLists, hc, hst i]
    · simp [stepOnLists, hk, hst k]
  | swap i j => exact ⟨_, rfl, fun k => hst (Equiv.swap i j k)⟩

/-- Over any sequence of calls that keep to the asserted preconditions no
assertion fails, the indices stay in order, and the readable bytes are those of
the byte lists. -/
theorem run_refines_lists (sizes : ι → ℕ) (steps : List (Step ι))
    (h : (machine ι).Permits (fun i => ofSize (sizes i)) steps) :
    ∃ s, (machine ι).run (fun i => ofSize (sizes i)) steps = .ok s ∧
      ∀ i, (s i).contents = steps.foldl stepOnLists (fun _ => []) i ∧
        (s i).readerIndex ≤ (s i).writerIndex ∧ (s i).writerIndex ≤ (s i).buffer.length := by
  have hinit : Holds (fun i => ofSize (sizes i)) (fun _ : ι => []) :=
    fun i => contents_ofSize (sizes i)
  obtain ⟨s, hs, hc⟩ := (machine ι).run_refines Holds stepOnLists step_holds steps _ _ hinit h
  exact ⟨s, hs, fun i => ⟨hc i, (s i).reader_le, (s i).writer_le⟩⟩

/-- Growth, a used-up prepend area, compaction and a swap in one run. -/
theorem run_refines_lists_two_buffers :
    ∃ s, (machine Bool).run (fun _ => ofSize 4)
        [.on true (.append [1, 2, 3]), .on true (.prepend [9]), .on true (.retrieve 2),
          .on true (.fill [4]), .on true (.append [5, 6, 7]), .on true (.unwrite 1),
          .on false (.readFd (.bytes [8, 8, 8, 8, 8])), .swap true false] = .ok s ∧
      ∀ i, (s i).contents = (if i then [8, 8, 8, 8, 8] else [2, 3, 4, 5, 6]) ∧
        (s i).readerIndex ≤ (s i).writerIndex ∧ (s i).writerIndex ≤ (s i).buffer.length := by
  refine (run_refines_lists (fun _ : Bool => 4) _ (by decide)).imp fun s h => ⟨h.1, fun i => ?_⟩
  obtain ⟨hc, hi⟩ := h.2 i
  refine ⟨hc.trans ?_, hi⟩
  cases i <;> decide

end Muduo.Buffer
