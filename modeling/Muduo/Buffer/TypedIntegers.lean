import Muduo.Buffer.Integers

/-!
# Signed integers of four widths

`appendInt64` and its relatives convert an integer to network byte order in memory and
copy its bytes; the byte order of the host decides whether a conversion swaps them. A
buffer is then a queue of integers, each in its big-endian encoding, which are read back
from its front. Growing and compacting move the bytes, not the integers.
-/

namespace Muduo

open Foundations

/-- The byte order of the host. -/
inductive ByteOrder where
  | little
  | big
  deriving DecidableEq, Repr

variable (order : ByteOrder)

def inMemory (n : ℕ) (x : BitVec (8 * n)) : List UInt8 :=
  match order with
  | .little => (hostToNetwork n x).reverse
  | .big => hostToNetwork n x

def fromMemory (n : ℕ) (bytes : List UInt8) : BitVec (8 * n) :=
  match order with
  | .little => networkToHost n bytes.reverse
  | .big => networkToHost n bytes

/-- `htobe64` and its relatives, which swap the bytes of a host that needs it. -/
def htobe (n : ℕ) (x : BitVec (8 * n)) : BitVec (8 * n) :=
  match order with
  | .little => networkToHost n (hostToNetwork n x).reverse
  | .big => x

/-- `be64toh` and its relatives. -/
def betoh (n : ℕ) (x : BitVec (8 * n)) : BitVec (8 * n) := htobe order n x

theorem hostToNetwork_networkToHost {n : ℕ} {bytes : List UInt8} (h : bytes.length = n) :
    hostToNetwork n (networkToHost n bytes) = bytes := by
  subst h
  have hlt := ofBytes_lt bytes
  rw [hostToNetwork, networkToHost, BitVec.toNat_ofNat, Nat.mod_eq_of_lt, toBytes_ofBytes]
  rwa [pow_mul]

/-- In memory the converted integer has the same bytes on every host. -/
theorem inMemory_htobe (n : ℕ) (x : BitVec (8 * n)) :
    inMemory order n (htobe order n x) = hostToNetwork n x := by
  cases order with
  | little =>
    rw [inMemory, htobe, hostToNetwork_networkToHost (by simp), List.reverse_reverse]
  | big => rfl

theorem betoh_fromMemory {n : ℕ} {bytes : List UInt8} (h : bytes.length = n) :
    betoh order n (fromMemory order n bytes) = networkToHost n bytes := by
  cases order with
  | little =>
    rw [betoh, htobe, fromMemory, hostToNetwork_networkToHost (by simpa), List.reverse_reverse]
  | big => rfl

theorem inMemory_one (x : BitVec (8 * 1)) : inMemory order 1 x = hostToNetwork 1 x := by
  obtain ⟨b, hb⟩ := List.length_eq_one_iff.mp (length_hostToNetwork 1 x)
  cases order with
  | little => rw [inMemory, hb, List.reverse_singleton]
  | big => rfl

theorem fromMemory_one {bytes : List UInt8} (h : bytes.length = 1) :
    fromMemory order 1 bytes = networkToHost 1 bytes := by
  obtain ⟨b, rfl⟩ := List.length_eq_one_iff.mp h
  cases order with
  | little => rfl
  | big => rfl

namespace Buffer.Host

variable (b : Buffer)

/-- `appendInt64`, `appendInt32` and `appendInt16`. -/
def appendInt (n : ℕ) (x : ℤ) : Except Fault Buffer :=
  b.append (inMemory order n (htobe order n (BitVec.ofInt (8 * n) x)))

def appendInt64 (x : ℤ) : Except Fault Buffer := appendInt order b 8 x

def appendInt32 (x : ℤ) : Except Fault Buffer := appendInt order b 4 x

def appendInt16 (x : ℤ) : Except Fault Buffer := appendInt order b 2 x

/-- A byte is not converted. -/
def appendInt8 (x : ℤ) : Except Fault Buffer := b.append (inMemory order 1 (BitVec.ofInt (8 * 1) x))

def prependInt (n : ℕ) (x : ℤ) : Except Fault Buffer :=
  b.prepend (inMemory order n (htobe order n (BitVec.ofInt (8 * n) x)))

def prependInt64 (x : ℤ) : Except Fault Buffer := prependInt order b 8 x

def prependInt32 (x : ℤ) : Except Fault Buffer := prependInt order b 4 x

def prependInt16 (x : ℤ) : Except Fault Buffer := prependInt order b 2 x

def prependInt8 (x : ℤ) : Except Fault Buffer :=
  b.prepend (inMemory order 1 (BitVec.ofInt (8 * 1) x))

def peekInt (n : ℕ) : Except Fault ℤ := do
  assertThat (n ≤ b.readableBytes)
  return (betoh order n (fromMemory order n (b.contents.take n))).toInt

def peekInt64 : Except Fault ℤ := peekInt order b 8

def peekInt32 : Except Fault ℤ := peekInt order b 4

def peekInt16 : Except Fault ℤ := peekInt order b 2

def peekInt8 : Except Fault ℤ := do
  assertThat (1 ≤ b.readableBytes)
  return (fromMemory order 1 (b.contents.take 1)).toInt

def retrieveInt64 : Except Fault Buffer := b.retrieve 8

def retrieveInt32 : Except Fault Buffer := b.retrieve 4

def retrieveInt16 : Except Fault Buffer := b.retrieve 2

def retrieveInt8 : Except Fault Buffer := b.retrieve 1

def readInt64 : Except Fault (ℤ × Buffer) := do
  let result ← peekInt64 order b
  let b ← retrieveInt64 b
  return (result, b)

def readInt32 : Except Fault (ℤ × Buffer) := do
  let result ← peekInt32 order b
  let b ← retrieveInt32 b
  return (result, b)

def readInt16 : Except Fault (ℤ × Buffer) := do
  let result ← peekInt16 order b
  let b ← retrieveInt16 b
  return (result, b)

def readInt8 : Except Fault (ℤ × Buffer) := do
  let result ← peekInt8 order b
  let b ← retrieveInt8 b
  return (result, b)

end Buffer.Host

inductive Width where
  | int8
  | int16
  | int32
  | int64
  deriving DecidableEq, Repr

/-- `sizeof` the type. -/
def Width.bytes : Width → ℕ
  | .int8 => 1
  | .int16 => 2
  | .int32 => 4
  | .int64 => 8

/-- A value of `int8_t`, `int16_t`, `int32_t` or `int64_t`. -/
structure TypedInt where
  width : Width
  value : ℤ
  low_le : -2 ^ (8 * width.bytes - 1) ≤ value
  lt_high : value < 2 ^ (8 * width.bytes - 1)
  deriving DecidableEq

namespace TypedInt

variable (x : TypedInt)

/-- The big-endian encoding of the value in two's complement. -/
def encode : List UInt8 := toBytes x.width.bytes (BitVec.ofInt (8 * x.width.bytes) x.value).toNat

@[simp] theorem length_encode : x.encode.length = x.width.bytes := length_toBytes _ _

theorem toInt_networkToHost_encode : (networkToHost x.width.bytes x.encode).toInt = x.value := by
  have hback : networkToHost x.width.bytes x.encode = BitVec.ofInt (8 * x.width.bytes) x.value :=
    networkToHost_hostToNetwork _ _
  have hpos : 0 < x.width.bytes := by cases x.width <;> decide
  have hhalf : (2 : ℤ) ^ (8 * x.width.bytes) = 2 * 2 ^ (8 * x.width.bytes - 1) := by
    rw [← pow_succ', Nat.sub_add_cancel (by omega)]
  have hlow := x.low_le
  have hhigh := x.lt_high
  rw [hback, BitVec.toInt_ofInt, Int.bmod_eq_of_le_mul_two]
  · push_cast
    omega
  · push_cast
    omega

end TypedInt

namespace Buffer.Host

variable (b : Buffer)

/-- The `appendIntN` of the width. -/
def appendAs : Width → ℤ → Except Fault Buffer
  | .int8 => appendInt8 order b
  | .int16 => appendInt16 order b
  | .int32 => appendInt32 order b
  | .int64 => appendInt64 order b

def prependAs : Width → ℤ → Except Fault Buffer
  | .int8 => prependInt8 order b
  | .int16 => prependInt16 order b
  | .int32 => prependInt32 order b
  | .int64 => prependInt64 order b

def peekAs : Width → Except Fault ℤ
  | .int8 => peekInt8 order b
  | .int16 => peekInt16 order b
  | .int32 => peekInt32 order b
  | .int64 => peekInt64 order b

def retrieveAs : Width → Except Fault Buffer
  | .int8 => retrieveInt8 b
  | .int16 => retrieveInt16 b
  | .int32 => retrieveInt32 b
  | .int64 => retrieveInt64 b

def readAs : Width → Except Fault (ℤ × Buffer)
  | .int8 => readInt8 order b
  | .int16 => readInt16 order b
  | .int32 => readInt32 order b
  | .int64 => readInt64 order b

/-- On every host the integer is appended in network byte order. -/
theorem appendInt_eq (n : ℕ) (x : ℤ) :
    appendInt order b n x = b.appendInt n (BitVec.ofInt (8 * n) x) :=
  congrArg b.append (inMemory_htobe order n _)

theorem appendAs_eq (x : TypedInt) : appendAs order b x.width x.value = b.append x.encode := by
  obtain ⟨w, v, hlow, hhigh⟩ := x
  cases w with
  | int8 => exact congrArg b.append (inMemory_one order _)
  | int16 | int32 | int64 => exact appendInt_eq order b _ v

theorem prependAs_eq (x : TypedInt) : prependAs order b x.width x.value = b.prepend x.encode := by
  obtain ⟨w, v, hlow, hhigh⟩ := x
  cases w with
  | int8 => exact congrArg b.prepend (inMemory_one order _)
  | int16 | int32 | int64 => exact congrArg b.prepend (inMemory_htobe order _ _)

theorem retrieveAs_eq (w : Width) : retrieveAs b w = b.retrieve w.bytes := by
  cases w <;> rfl

theorem readAs_eq (w : Width) :
    readAs order b w = (do
      let result ← peekAs order b w
      let b ← retrieveAs b w
      return (result, b)) := by
  cases w <;> rfl

variable {b} in
theorem peekInt_eq {n : ℕ} (h : n ≤ b.readableBytes) :
    peekInt order b n = .ok (networkToHost n (b.contents.take n)).toInt := by
  have hlen : (b.contents.take n).length = n := by simpa using h
  rw [peekInt, assertThat_pos h, ok_bind, betoh_fromMemory order hlen, pure_eq_ok]

variable {b} in
theorem peekInt8_eq (h : 1 ≤ b.readableBytes) :
    peekInt8 order b = .ok (networkToHost 1 (b.contents.take 1)).toInt := by
  have hlen : (b.contents.take 1).length = 1 := by simpa using h
  rw [peekInt8, assertThat_pos h, ok_bind, fromMemory_one order hlen, pure_eq_ok]

variable {b} in
theorem peekAs_eq {w : Width} (h : w.bytes ≤ b.readableBytes) :
    peekAs order b w = .ok (networkToHost w.bytes (b.contents.take w.bytes)).toInt := by
  cases w with
  | int8 => exact peekInt8_eq order h
  | int16 | int32 | int64 => exact peekInt_eq order h

variable {b} in
theorem peekAs_spec {x : TypedInt} {rest : List UInt8} (h : b.contents = x.encode ++ rest) :
    x.width.bytes ≤ b.readableBytes ∧ peekAs order b x.width = .ok x.value := by
  have hroom : x.width.bytes ≤ b.readableBytes := by
    rw [← length_contents, h]
    simp
  refine ⟨hroom, ?_⟩
  rw [peekAs_eq order hroom, h, ← x.length_encode, List.take_left, x.length_encode,
    x.toInt_networkToHost_encode]

variable {b} in
theorem retrieveAs_spec {x : TypedInt} {rest : List UInt8} (h : b.contents = x.encode ++ rest) :
    ∃ b', retrieveAs b x.width = .ok b' ∧ b'.contents = rest := by
  obtain ⟨b', hb, hc⟩ := retrieve_spec (peekAs_spec .big h).1
  refine ⟨b', (retrieveAs_eq b _).trans hb, ?_⟩
  rw [hc, h, ← x.length_encode, List.drop_left]

variable {b} in
theorem readAs_spec {x : TypedInt} {rest : List UInt8} (h : b.contents = x.encode ++ rest) :
    ∃ b', readAs order b x.width = .ok (x.value, b') ∧ b'.contents = rest := by
  obtain ⟨b', hb, hc⟩ := retrieveAs_spec h
  refine ⟨b', ?_, hc⟩
  rw [readAs_eq, (peekAs_spec order h).2, ok_bind, hb, ok_bind, pure_eq_ok]

/-- One `readIntN` after the other. -/
def readBack : Buffer → List Width → Except Fault (List ℤ × Buffer)
  | b, [] => .ok ([], b)
  | b, w :: ws => do
    let (result, b) ← readAs order b w
    let (results, b) ← readBack b ws
    return (result :: results, b)

variable {b} in
/-- Reading in the order of the buffer returns what it holds, and empties it. -/
theorem readBack_spec {xs : List TypedInt} (h : b.contents = xs.flatMap TypedInt.encode) :
    ∃ b', readBack order b (xs.map TypedInt.width) = .ok (xs.map TypedInt.value, b') ∧
      b'.contents = [] := by
  induction xs generalizing b with
  | nil => exact ⟨b, rfl, h⟩
  | cons x xs ih =>
    rw [List.flatMap_cons] at h
    obtain ⟨b₁, hread, hc⟩ := readAs_spec order h
    obtain ⟨b', hback, hnil⟩ := ih hc
    refine ⟨b', ?_, hnil⟩
    simp only [List.map_cons, readBack, hread, hback, ok_bind, pure_eq_ok]

end Buffer.Host

/-- The calls on the buffer. The caller reads an integer with the function of its
width, and retrieves whole integers; `retrieve` takes several of them at once. -/
inductive IntOp where
  | appendInt (x : TypedInt)
  | prependInt (x : TypedInt)
  | peekInt (w : Width)
  | readInt (w : Width)
  | retrieveInt (w : Width)
  | retrieve (count : ℕ)
  | retrieveAll
  | ensureWritableBytes (len : ℕ)
  | shrink (reserve : ℕ)
  deriving DecidableEq

/-- The integers put into the buffer and not yet taken, in its order, and the values
that peeking and reading are to return. -/
structure IntQueue where
  pending : List TypedInt
  expected : List ℤ
  deriving DecidableEq

namespace IntQueue

def empty : IntQueue := ⟨[], []⟩

def next (q : IntQueue) : IntOp → IntQueue
  | .appendInt x => { q with pending := q.pending ++ [x] }
  | .prependInt x => { q with pending := x :: q.pending }
  | .peekInt _ => { q with expected := q.expected ++ (q.pending.take 1).map TypedInt.value }
  | .readInt _ =>
    { pending := q.pending.drop 1
      expected := q.expected ++ (q.pending.take 1).map TypedInt.value }
  | .retrieveInt _ => { q with pending := q.pending.drop 1 }
  | .retrieve count => { q with pending := q.pending.drop count }
  | .retrieveAll => { q with pending := [] }
  | .ensureWritableBytes _ | .shrink _ => q

def Fronts (q : IntQueue) (w : Width) : Prop := q.pending.head?.map TypedInt.width = some w

instance (q : IntQueue) (w : Width) : Decidable (q.Fronts w) :=
  inferInstanceAs (Decidable (_ = _))

theorem Fronts.exists_cons {q : IntQueue} {w : Width} (h : q.Fronts w) :
    ∃ x xs, q.pending = x :: xs ∧ x.width = w := by
  obtain ⟨x, hx, hw⟩ := Option.map_eq_some_iff.mp h
  obtain ⟨xs, hxs⟩ := List.head?_eq_some_iff.mp hx
  exact ⟨x, xs, hxs, hw⟩

end IntQueue

/-- A buffer, what peeking and reading have returned, and the queue it stands for. -/
structure IntSession where
  buffer : Buffer
  results : List ℤ
  queue : IntQueue
  deriving DecidableEq

namespace IntSession

open Buffer.Host

def new (initialSize : ℕ) : IntSession := ⟨Buffer.ofSize initialSize, [], IntQueue.empty⟩

variable (s : IntSession)

/-- The buffer after a call, and what the call returns. -/
def exec : IntOp → Except Fault (List ℤ × Buffer)
  | .appendInt x => do
    let b ← appendAs order s.buffer x.width x.value
    return ([], b)
  | .prependInt x => do
    let b ← prependAs order s.buffer x.width x.value
    return ([], b)
  | .peekInt w => do
    let result ← peekAs order s.buffer w
    return ([result], s.buffer)
  | .readInt w => do
    let (result, b) ← readAs order s.buffer w
    return ([result], b)
  | .retrieveInt w => do
    let b ← retrieveAs s.buffer w
    return ([], b)
  | .retrieve count => do
    let b ← s.buffer.retrieve ((s.queue.pending.take count).flatMap TypedInt.encode).length
    return ([], b)
  | .retrieveAll => .ok ([], s.buffer.retrieveAll)
  | .ensureWritableBytes len => do
    let b ← s.buffer.ensureWritableBytes len
    return ([], b)
  | .shrink reserve => do
    let b ← s.buffer.shrink reserve
    return ([], b)

/-- Prepending needs space; peeking, reading and retrieving go by the width of the next
integer. `shrink` casts the length of the content to `int`. -/
def Pre : IntOp → Prop
  | .prependInt x => x.width.bytes ≤ s.buffer.prependableBytes
  | .peekInt w | .readInt w | .retrieveInt w => s.queue.Fronts w
  | .shrink _ => s.buffer.readableBytes < 2 ^ 31
  | .appendInt _ | .retrieve _ | .retrieveAll | .ensureWritableBytes _ => True

instance : (op : IntOp) → Decidable (s.Pre op)
  | .prependInt _ | .shrink _ => Nat.decLe _ _
  | .peekInt w | .readInt w | .retrieveInt w => inferInstanceAs (Decidable (s.queue.Fronts w))
  | .appendInt _ | .retrieve _ | .retrieveAll | .ensureWritableBytes _ => .isTrue trivial

def machine : Machine IntSession IntOp Fault where
  Allows := Pre
  step s op := do
    let (results, b) ← s.exec order op
    return { buffer := b, results := s.results ++ results, queue := s.queue.next op }

instance (s : IntSession) (op : IntOp) : Decidable ((machine order).Allows s op) :=
  inferInstanceAs (Decidable (s.Pre op))

/-- The content is the pending integers, one encoding after the other, and all that was
returned is what the queue expects. -/
structure Holds (s : IntSession) (q : IntQueue) : Prop where
  queue : s.queue = q
  contents : s.buffer.contents = q.pending.flatMap TypedInt.encode
  results : s.results = q.expected

variable {s} {q : IntQueue}

/-- The encoding of the next integer is at the front of the content. -/
theorem Holds.front (h : Holds s q) {w : Width} (hw : s.queue.Fronts w) :
    ∃ x xs, q.pending = x :: xs ∧ x.width = w ∧
      s.buffer.contents = x.encode ++ xs.flatMap TypedInt.encode := by
  obtain ⟨x, xs, hxs, hwidth⟩ := hw.exists_cons
  rw [h.queue] at hxs
  refine ⟨x, xs, hxs, hwidth, ?_⟩
  rw [h.contents, hxs, List.flatMap_cons]

theorem Holds.retrieve (h : Holds s q) (count : ℕ) :
    ∃ b, s.buffer.retrieve ((q.pending.take count).flatMap TypedInt.encode).length = .ok b ∧
      b.contents = (q.pending.drop count).flatMap TypedInt.encode := by
  have hsplit : s.buffer.contents = (q.pending.take count).flatMap TypedInt.encode ++
      (q.pending.drop count).flatMap TypedInt.encode := by
    rw [h.contents, ← List.flatMap_append, List.take_append_drop]
  have hroom : ((q.pending.take count).flatMap TypedInt.encode).length ≤
      s.buffer.readableBytes := by
    rw [← Buffer.length_contents, hsplit, List.length_append]
    omega
  obtain ⟨b, hb, hcb⟩ := Buffer.retrieve_spec hroom
  refine ⟨b, hb, ?_⟩
  rw [hcb, hsplit, List.drop_left]

/-- A call moves the bytes and returns the values as the queue says. -/
theorem exec_spec (h : Holds s q) {op : IntOp} (hp : s.Pre op) :
    ∃ results b, s.exec order op = .ok (results, b) ∧
      b.contents = (q.next op).pending.flatMap TypedInt.encode ∧
      (q.next op).expected = q.expected ++ results := by
  have hc := h.contents
  cases op with
  | appendInt x =>
    obtain ⟨b, hb, hcb, -⟩ := s.buffer.append_spec x.encode
    refine ⟨[], b, ?_, ?_, by simp [IntQueue.next]⟩
    · simp [exec, appendAs_eq, hb]
    · simp [IntQueue.next, hcb, hc]
  | prependInt x =>
    obtain ⟨b, hb, hcb⟩ := Buffer.prepend_spec (x.length_encode.trans_le hp)
    refine ⟨[], b, ?_, ?_, by simp [IntQueue.next]⟩
    · simp [exec, prependAs_eq, hb]
    · simp [IntQueue.next, hcb, hc]
  | peekInt w =>
    obtain ⟨x, xs, hxs, rfl, hfront⟩ := h.front hp
    refine ⟨[x.value], s.buffer, ?_, hc, by simp [IntQueue.next, hxs]⟩
    simp [exec, (peekAs_spec order hfront).2]
  | readInt w =>
    obtain ⟨x, xs, hxs, rfl, hfront⟩ := h.front hp
    obtain ⟨b, hb, hcb⟩ := readAs_spec order hfront
    refine ⟨[x.value], b, ?_, ?_, by simp [IntQueue.next, hxs]⟩
    · simp [exec, hb]
    · simp [IntQueue.next, hxs, hcb]
  | retrieveInt w =>
    obtain ⟨x, xs, hxs, rfl, hfront⟩ := h.front hp
    obtain ⟨b, hb, hcb⟩ := retrieveAs_spec hfront
    refine ⟨[], b, ?_, ?_, by simp [IntQueue.next]⟩
    · simp [exec, hb]
    · simp [IntQueue.next, hxs, hcb]
  | retrieve count =>
    obtain ⟨b, hb, hcb⟩ := h.retrieve count
    refine ⟨[], b, ?_, hcb, by simp [IntQueue.next]⟩
    simp only [exec, h.queue, hb, ok_bind, pure_eq_ok]
  | retrieveAll =>
    exact ⟨[], s.buffer.retrieveAll, rfl, s.buffer.contents_retrieveAll, by simp [IntQueue.next]⟩
  | ensureWritableBytes len =>
    obtain ⟨b, hb, hcb, -, -⟩ := s.buffer.ensureWritableBytes_spec len
    refine ⟨[], b, ?_, hcb.trans hc, by simp [IntQueue.next]⟩
    simp [exec, hb]
  | shrink reserve =>
    obtain ⟨b, hb, hcb⟩ := Buffer.shrink_spec reserve hp
    refine ⟨[], b, ?_, hcb.trans hc, by simp [IntQueue.next]⟩
    simp [exec, hb]

theorem step_holds (s : IntSession) (q : IntQueue) (op : IntOp) (h : Holds s q)
    (ha : (machine order).Allows s op) :
    ∃ s', (machine order).step s op = .ok s' ∧ Holds s' (q.next op) := by
  obtain ⟨results, b, hexec, hc, hres⟩ := exec_spec order h ha
  refine ⟨⟨b, s.results ++ results, s.queue.next op⟩, ?_, ?_⟩
  · simp [machine, hexec]
  · exact ⟨by rw [h.queue], hc, by rw [hres, h.results]⟩

theorem holds_new (initialSize : ℕ) : Holds (new initialSize) IntQueue.empty :=
  ⟨rfl, Buffer.contents_ofSize initialSize, rfl⟩

/-- On a host of either byte order no call fails, peeking and reading return the values
of the integers in the order of the buffer, and its bytes are their big-endian encodings.
Whatever is left can be read back, function by function, and empties the buffer. -/
theorem integers_survive (initialSize : ℕ) (ops : List IntOp)
    (hops : (machine order).Permits (new initialSize) ops) :
    ∃ s, (machine order).run (new initialSize) ops = .ok s ∧
      s.results = (ops.foldl IntQueue.next IntQueue.empty).expected ∧
      s.buffer.contents =
        (ops.foldl IntQueue.next IntQueue.empty).pending.flatMap TypedInt.encode ∧
      ∃ b, readBack order s.buffer
          ((ops.foldl IntQueue.next IntQueue.empty).pending.map TypedInt.width) =
            .ok ((ops.foldl IntQueue.next IntQueue.empty).pending.map TypedInt.value, b) ∧
        b.contents = [] := by
  obtain ⟨s, hrun, hholds⟩ :=
    (machine order).run_refines Holds IntQueue.next (step_holds order) ops (new initialSize)
      IntQueue.empty (holds_new initialSize) hops
  exact ⟨s, hrun, hholds.results, hholds.contents, readBack_spec order hholds.contents⟩

/-- Negative integers of all widths in a buffer that has to grow and moves its bytes. -/
def mixedOps : List IntOp :=
  [.appendInt ⟨.int32, -2, by decide, by decide⟩, .appendInt ⟨.int8, -128, by decide, by decide⟩,
    .prependInt ⟨.int16, -1, by decide, by decide⟩, .readInt .int16,
    .appendInt ⟨.int64, -2 ^ 63, by decide, by decide⟩, .readInt .int32, .shrink 0,
    .prependInt ⟨.int64, 1, by decide, by decide⟩, .retrieveInt .int64, .peekInt .int8]

theorem mixedOps_survive :
    (machine .little).Permits (new 4) mixedOps ∧
      ∃ s, (machine .little).run (new 4) mixedOps = .ok s ∧ s.results = [-1, -2, -128] ∧
        s.buffer.contents = [0x80, 0x80, 0, 0, 0, 0, 0, 0, 0] := by
  have hops : (machine .little).Permits (new 4) mixedOps := by decide +kernel
  obtain ⟨s, hrun, hresults, hcontents, -⟩ := integers_survive .little 4 mixedOps hops
  exact ⟨hops, s, hrun, hresults.trans (by decide +kernel), hcontents.trans (by decide +kernel)⟩

end IntSession
end Muduo
