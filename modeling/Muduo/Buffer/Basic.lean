import Muduo.Foundations.Machine
import Muduo.Foundations.Slices

/-!
# The byte buffer

`Buffer` is a byte array with two indices. The bytes between them are the
readable content, the space behind is writable, and the space in front is
kept so that a header can be put before the content cheaply. Pointers into the
array are positions. Sizes are natural numbers: `size_t` never wraps here. The
bounds `readerIndex ≤ writerIndex ≤ size` are fields, so every operation
discharges them where it builds its result.
-/

namespace Muduo

open Foundations

/-- The error numbers the library tells apart. -/
inductive Errno where
  | EWOULDBLOCK
  | EPIPE
  | ECONNRESET
  | other (code : ℕ)
  deriving DecidableEq, Repr

/-- What `readv` does: it fails, or fills the given iovecs in order. No bytes
stand for the end of the stream. -/
inductive ReadAnswer where
  | failed (errno : Errno)
  | bytes (data : List UInt8)
  deriving DecidableEq, Repr

def Buffer.kCheapPrepend : ℕ := 8

def Buffer.kInitialSize : ℕ := 1024

structure Buffer where
  buffer : List UInt8
  readerIndex : ℕ
  writerIndex : ℕ
  reader_le : readerIndex ≤ writerIndex
  writer_le : writerIndex ≤ buffer.length
  prepend_le : Buffer.kCheapPrepend ≤ buffer.length
  deriving DecidableEq

/-- A pointer to bytes with an `int` length, as `StringPiece` has it. -/
structure StringPiece where
  data : List UInt8
  length : ℤ
  deriving DecidableEq, Repr

namespace Buffer

/-- The constructor `Buffer(initialSize)`. -/
def ofSize (initialSize : ℕ) : Buffer where
  buffer := List.replicate (kCheapPrepend + initialSize) 0
  readerIndex := kCheapPrepend
  writerIndex := kCheapPrepend
  reader_le := le_rfl
  writer_le := by simp
  prepend_le := by simp

instance : Inhabited Buffer := ⟨ofSize kInitialSize⟩

variable (b : Buffer)

def readableBytes : ℕ := b.writerIndex - b.readerIndex

def writableBytes : ℕ := b.buffer.length - b.writerIndex

def prependableBytes : ℕ := b.readerIndex

def peek : ℕ := b.readerIndex

def beginWrite : ℕ := b.writerIndex

/-- The bytes from `peek()` up to `beginWrite()`. -/
def contents : List UInt8 := slice b.buffer b.peek b.beginWrite

@[simp] theorem length_contents : b.contents.length = b.readableBytes := by
  have h := b.writer_le
  simp only [contents, length_slice, readableBytes, peek, beginWrite]
  omega

theorem contents_eq_nil_iff : b.contents = [] ↔ b.readableBytes = 0 := by
  rw [← length_contents, List.length_eq_zero_iff]

theorem ofSize_spec (initialSize : ℕ) :
    (ofSize initialSize).readableBytes = 0 ∧
      (ofSize initialSize).writableBytes = initialSize ∧
      (ofSize initialSize).prependableBytes = kCheapPrepend := by
  simp [ofSize, readableBytes, writableBytes, prependableBytes]

@[simp] theorem contents_ofSize (initialSize : ℕ) : (ofSize initialSize).contents = [] := by
  rw [contents_eq_nil_iff]
  exact (ofSize_spec initialSize).1

def retrieveAll : Buffer where
  buffer := b.buffer
  readerIndex := kCheapPrepend
  writerIndex := kCheapPrepend
  reader_le := le_rfl
  writer_le := b.prepend_le
  prepend_le := b.prepend_le

@[simp] theorem contents_retrieveAll : b.retrieveAll.contents = [] := by
  simp [contents, retrieveAll, peek, beginWrite]

/-- Only the reader index moves, until the content is used up. -/
def retrieve (len : ℕ) : Except Fault Buffer :=
  if h : len ≤ b.readableBytes then
    if len < b.readableBytes then
      .ok { b with
        readerIndex := b.readerIndex + len
        reader_le := by
          have := b.reader_le
          unfold readableBytes at h
          omega }
    else .ok b.retrieveAll
  else .error .assertion

def retrieveUntil (end_ : ℕ) : Except Fault Buffer := do
  assertThat (b.peek ≤ end_)
  assertThat (end_ ≤ b.beginWrite)
  b.retrieve (end_ - b.peek)

def retrieveAsString (len : ℕ) : Except Fault (List UInt8 × Buffer) := do
  assertThat (len ≤ b.readableBytes)
  let result := b.contents.take len
  let b ← b.retrieve len
  return (result, b)

def retrieveAllAsString : Except Fault (List UInt8 × Buffer) :=
  b.retrieveAsString b.readableBytes

/-- The length is cast to `int`. -/
def toStringPiece : StringPiece where
  data := b.contents
  length := (b.readableBytes : ℤ).bmod (2 ^ 32)

/-- Move the writer index over bytes that are already in place. -/
def advance (len : ℕ) (h : len ≤ b.writableBytes) : Buffer where
  buffer := b.buffer
  readerIndex := b.readerIndex
  writerIndex := b.writerIndex + len
  reader_le := by
    have := b.reader_le
    omega
  writer_le := by
    have := b.writer_le
    unfold writableBytes at h
    omega
  prepend_le := b.prepend_le

def hasWritten (len : ℕ) : Except Fault Buffer :=
  if h : len ≤ b.writableBytes then .ok (b.advance len h) else .error .assertion

def unwrite (len : ℕ) : Except Fault Buffer :=
  if h : len ≤ b.readableBytes then
    .ok { b with
      writerIndex := b.writerIndex - len
      reader_le := by
        have := b.reader_le
        unfold readableBytes at h
        omega
      writer_le := by
        have := b.writer_le
        omega }
  else .error .assertion

/-- `std::copy(data, data + len, beginWrite())`. -/
def copyToWritable (data : List UInt8) : Except Fault Buffer :=
  if h : data.length ≤ b.writableBytes then
    have hlen : (overwrite b.buffer b.beginWrite data).length = b.buffer.length := by
      apply length_overwrite
      have := b.writer_le
      unfold writableBytes at h
      unfold beginWrite
      omega
    .ok { b with
      buffer := overwrite b.buffer b.beginWrite data
      writer_le := hlen ▸ b.writer_le
      prepend_le := hlen ▸ b.prepend_le }
  else .error .outOfBounds

/-- Grow, or move the content to the front. Called only when `len` bytes do
not fit behind the content. -/
def makeSpace (len : ℕ) (hlen : b.writableBytes < len) : Except Fault Buffer :=
  if b.writableBytes + b.prependableBytes < len + kCheapPrepend then
    .ok { b with
      buffer := resize b.buffer (b.writerIndex + len) 0
      writer_le := by simp
      prepend_le := by
        have := b.prepend_le
        unfold writableBytes at hlen
        rw [length_resize]
        omega }
  else if h : kCheapPrepend < b.readerIndex then
    have hroom : kCheapPrepend + b.contents.length ≤ b.buffer.length := by
      have := b.reader_le
      have := b.writer_le
      rw [length_contents]
      unfold readableBytes
      omega
    have hsame := length_overwrite hroom
    let moved : Buffer :=
      { buffer := overwrite b.buffer kCheapPrepend b.contents
        readerIndex := kCheapPrepend
        writerIndex := kCheapPrepend + b.readableBytes
        reader_le := Nat.le_add_right _ _
        writer_le := by rwa [hsame, ← b.length_contents]
        prepend_le := by rw [hsame]; exact b.prepend_le }
    do
      assertThat (b.readableBytes = moved.readableBytes)
      return moved
  else .error .assertion

def ensureWritableBytes (len : ℕ) : Except Fault Buffer := do
  let b ← if h : b.writableBytes < len then b.makeSpace len h else .ok b
  assertThat (len ≤ b.writableBytes)
  return b

def append (data : List UInt8) : Except Fault Buffer := do
  let b ← b.ensureWritableBytes data.length
  let b ← b.copyToWritable data
  b.hasWritten data.length

/-- `append(const StringPiece&)`: a negative length becomes a `size_t` that no
vector can reach. -/
def appendPiece (str : StringPiece) : Except Fault Buffer :=
  if 0 ≤ str.length then b.append (str.data.take str.length.toNat) else .error .exception

def prepend (data : List UInt8) : Except Fault Buffer :=
  if h : data.length ≤ b.prependableBytes then
    have hlen : (overwrite b.buffer (b.readerIndex - data.length) data).length =
        b.buffer.length := by
      apply length_overwrite
      have := b.reader_le
      have := b.writer_le
      unfold prependableBytes at h
      omega
    .ok
      { buffer := overwrite b.buffer (b.readerIndex - data.length) data
        readerIndex := b.readerIndex - data.length
        writerIndex := b.writerIndex
        reader_le := (Nat.sub_le _ _).trans b.reader_le
        writer_le := hlen ▸ b.writer_le
        prepend_le := hlen ▸ b.prepend_le }
  else .error .assertion

/-- The content moves to a fresh buffer, which is then swapped in. -/
def shrink (reserve : ℕ) : Except Fault Buffer := do
  let other ← (ofSize kInitialSize).ensureWritableBytes (b.readableBytes + reserve)
  other.appendPiece b.toStringPiece

/-- The size of the stack array that takes what the writable space cannot. -/
def extrabufSize : ℕ := 65536

/-- The kernel fills the writable space first and then `extrabuf`, of which the
source offers it both or only the first. The result is `n`, and `errno` on failure. -/
def readFd : ReadAnswer → Except Fault (ℤ × Option Errno × Buffer)
  | .failed errno => .ok (-1, some errno, b)
  | .bytes data => do
    let filled ← b.copyToWritable (data.take b.writableBytes)
    if h : data.length ≤ filled.writableBytes then
      return (data.length, none, filled.advance data.length h)
    else
      let full := filled.advance filled.writableBytes le_rfl
      let result ← full.append (data.drop b.writableBytes)
      return (data.length, none, result)

variable {b}

theorem retrieve_spec {len : ℕ} (h : len ≤ b.readableBytes) :
    ∃ b', b.retrieve len = .ok b' ∧ b'.contents = b.contents.drop len := by
  rw [retrieve, dif_pos h]
  split_ifs with hlt
  · exact ⟨_, rfl, slice_add_left _ _ _ _⟩
  · refine ⟨_, rfl, ?_⟩
    rw [contents_retrieveAll, eq_comm, List.drop_eq_nil_iff, length_contents]
    omega

theorem retrieveUntil_spec {n : ℕ} (h : n ≤ b.readableBytes) :
    ∃ b', b.retrieveUntil (b.peek + n) = .ok b' ∧ b'.contents = b.contents.drop n := by
  have hend : b.peek + n ≤ b.beginWrite := by
    have := b.reader_le
    unfold readableBytes at h
    unfold peek beginWrite
    omega
  obtain ⟨b', hb, hc⟩ := retrieve_spec h
  refine ⟨b', ?_, hc⟩
  simp [retrieveUntil, hend, hb]

theorem retrieveAsString_spec {len : ℕ} (h : len ≤ b.readableBytes) :
    ∃ b', b.retrieveAsString len = .ok (b.contents.take len, b') ∧
      b'.contents = b.contents.drop len := by
  obtain ⟨b', hb, hc⟩ := retrieve_spec h
  exact ⟨b', by simp [retrieveAsString, h, hb], hc⟩

theorem unwrite_spec {len : ℕ} (h : len ≤ b.readableBytes) :
    ∃ b', b.unwrite len = .ok b' ∧
      b'.contents = b.contents.take (b.contents.length - len) := by
  rw [unwrite, dif_pos h]
  have hback : b.peek + len ≤ b.beginWrite := by
    have := b.reader_le
    unfold readableBytes at h
    unfold peek beginWrite
    omega
  exact ⟨_, rfl, slice_sub_right len hback b.writer_le⟩

theorem prepend_spec {data : List UInt8} (h : data.length ≤ b.prependableBytes) :
    ∃ b', b.prepend data = .ok b' ∧ b'.contents = data ++ b.contents := by
  have hr := b.reader_le
  have hw := b.writer_le
  have hback : b.readerIndex - data.length + data.length = b.readerIndex :=
    Nat.sub_add_cancel h
  rw [prepend, dif_pos h]
  refine ⟨_, rfl, ?_⟩
  simp only [contents, peek, beginWrite]
  rw [slice_overwrite_prepend (by omega) (by omega), hback]

/-- Filling the start of the writable space and stepping over it appends. -/
theorem copyToWritable_spec {data : List UInt8} (h : data.length ≤ b.writableBytes) :
    ∃ b', b.copyToWritable data = .ok b' ∧ b'.writableBytes = b.writableBytes ∧
      b'.prependableBytes = b.prependableBytes ∧
      ∀ n (hn : n ≤ b'.writableBytes), n = data.length →
        (b'.advance n hn).contents = b.contents ++ data := by
  have hw := b.writer_le
  have hroom : b.beginWrite + data.length ≤ b.buffer.length := by
    unfold writableBytes at h
    unfold beginWrite
    omega
  have hsame : (overwrite b.buffer b.beginWrite data).length - b.writerIndex =
      b.writableBytes := by
    rw [length_overwrite hroom]
    rfl
  rw [copyToWritable, dif_pos h]
  refine ⟨_, rfl, hsame, rfl, ?_⟩
  intro n hn heq
  subst n
  exact slice_overwrite_append b.reader_le hroom

theorem makeSpace_spec {len : ℕ} (hlen : b.writableBytes < len) :
    ∃ b', b.makeSpace len hlen = .ok b' ∧ b'.contents = b.contents ∧
      len ≤ b'.writableBytes ∧ min b.prependableBytes kCheapPrepend ≤ b'.prependableBytes := by
  have hr := b.reader_le
  have hw := b.writer_le
  rw [makeSpace]
  split_ifs with hgrow hfront
  · refine ⟨_, rfl, slice_resize 0 hw ?_, ?_, min_le_left _ _⟩
    · unfold writableBytes at hlen
      omega
    · simp [writableBytes]
  · have hroom : kCheapPrepend + b.contents.length ≤ b.buffer.length := by
      rw [length_contents]
      unfold readableBytes
      omega
    refine ⟨_, bind_eq_ok.mpr ⟨(), assertThat_pos ?_, rfl⟩, ?_, ?_, min_le_right _ _⟩
    · simp [readableBytes]
    · have hself := slice_overwrite_self hroom
      rw [length_contents] at hself
      exact hself
    · simp only [writableBytes, length_overwrite hroom]
      unfold writableBytes prependableBytes at hgrow
      unfold readableBytes
      omega
  · unfold prependableBytes at hgrow
    omega

theorem ensureWritableBytes_spec (len : ℕ) :
    ∃ b', b.ensureWritableBytes len = .ok b' ∧ b'.contents = b.contents ∧
      len ≤ b'.writableBytes ∧ min b.prependableBytes kCheapPrepend ≤ b'.prependableBytes := by
  by_cases h : b.writableBytes < len
  · obtain ⟨b', hb, hc, hroom, hp⟩ := makeSpace_spec h
    exact ⟨b', by simp [ensureWritableBytes, h, hb, hroom], hc, hroom, hp⟩
  · have hroom : len ≤ b.writableBytes := not_lt.mp h
    exact ⟨b, by simp [ensureWritableBytes, h, hroom], rfl, hroom, min_le_left _ _⟩

theorem append_spec (data : List UInt8) :
    ∃ b', b.append data = .ok b' ∧ b'.contents = b.contents ++ data ∧
      min b.prependableBytes kCheapPrepend ≤ b'.prependableBytes := by
  obtain ⟨b₀, h₀, hc, hroom, hp⟩ := b.ensureWritableBytes_spec data.length
  obtain ⟨b₁, h₁, hw₁, hp₁, hadv⟩ := copyToWritable_spec hroom
  have hfit : data.length ≤ b₁.writableBytes := hw₁ ▸ hroom
  refine ⟨b₁.advance data.length hfit, ?_, ?_, hp.trans_eq hp₁.symm⟩
  · simp [append, h₀, h₁, hasWritten, hfit]
  · rw [hadv _ hfit rfl, hc]

/-- Below `2 ^ 31` bytes the cast of the length to `int` is exact. -/
theorem toStringPiece_length (h : b.readableBytes < 2 ^ 31) :
    b.toStringPiece.length = b.readableBytes := by
  simp only [toStringPiece]
  rw [Int.bmod_eq_of_le]
  · norm_num
  · norm_num
    omega

theorem shrink_spec (reserve : ℕ) (h : b.readableBytes < 2 ^ 31) :
    ∃ b', b.shrink reserve = .ok b' ∧ b'.contents = b.contents := by
  obtain ⟨b₀, h₀, hc₀, -, -⟩ :=
    (ofSize kInitialSize).ensureWritableBytes_spec (b.readableBytes + reserve)
  obtain ⟨b₁, h₁, hc₁, -⟩ := b₀.append_spec b.contents
  have hall : b.toStringPiece.data.take b.readableBytes = b.contents := by
    rw [← length_contents]
    exact List.take_length
  refine ⟨b₁, ?_, by rw [hc₁, hc₀, contents_ofSize, List.nil_append]⟩
  simp [shrink, h₀, appendPiece, toStringPiece_length h, hall, h₁]

theorem readFd_spec (data : List UInt8) :
    ∃ b', b.readFd (.bytes data) = .ok (data.length, none, b') ∧
      b'.contents = b.contents ++ data := by
  have hfit : (data.take b.writableBytes).length ≤ b.writableBytes := by simp
  obtain ⟨b₁, h₁, hroom, -, hadv⟩ := copyToWritable_spec hfit
  by_cases h : data.length ≤ b₁.writableBytes
  · have hall : data.take b.writableBytes = data := List.take_of_length_le (hroom ▸ h)
    rw [hall] at hadv
    exact ⟨b₁.advance data.length h, by simp [readFd, h₁, h], hadv _ h rfl⟩
  · have hfull : b₁.writableBytes = (data.take b.writableBytes).length := by
      simp
      omega
    obtain ⟨b₂, h₂, hc₂, -⟩ :=
      (b₁.advance b₁.writableBytes le_rfl).append_spec (data.drop b.writableBytes)
    refine ⟨b₂, by simp [readFd, h₁, h, h₂], ?_⟩
    rw [hc₂, hadv _ le_rfl hfull, List.append_assoc, List.take_append_drop]

theorem readFd_returns (b : Buffer) (answer : ReadAnswer) : ∃ r, b.readFd answer = .ok r := by
  cases answer with
  | failed errno => exact ⟨_, rfl⟩
  | bytes data =>
    obtain ⟨b', hb', -⟩ := b.readFd_spec data
    exact ⟨_, hb'⟩

end Buffer
end Muduo
