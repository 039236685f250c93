import Muduo.Foundations.Int32
import Muduo.Codec.RoundTrip

/-!
# Lengths from the peer

The receiving side once more, with every length an `int` and every pointer an
offset into the readable bytes. An operation on lengths fails if it overflows, a
read fails if it leaves the readable bytes or the frame that was announced, and
so does a negative length where a piece of the buffer is handed on. Nothing of
this happens for any content of the buffer, and the result is that of `onMessage`.
-/

namespace Muduo

open Foundations

namespace ProtobufCodecLite.Lengths

inductive LengthFault where
  | overflow
  | negative
  | outsideBuffer
  | outsideFrame
  | endless
  deriving DecidableEq, Repr

/-- The result of an operation on `int`s. -/
def int (n : ℤ) : Except LengthFault ℤ := int32 .overflow n

/-- An `int` as a size. -/
def size (n : ℤ) : Except LengthFault ℕ := if 0 ≤ n then .ok n.toNat else .error .negative

/-- `len` bytes from `offset` on, in a frame that ends at `limit`. -/
def read (bytes : List UInt8) (limit offset len : ℤ) : Except LengthFault (List UInt8) := do
  let len ← size len
  if offset < 0 ∨ bytes.length < offset + len then .error .outsideBuffer
  else if limit < offset + len then .error .outsideFrame
  else return slice bytes offset.toNat (offset.toNat + len)

variable {M : Type} (codec : ProtobufCodecLite M) (bytes : List UInt8)

def kMinMessageLen : Except LengthFault ℤ := int (codec.tag.length + kChecksumLen)

section Frame

variable (limit : ℤ)

def asInt32 (buf : ℤ) : Except LengthFault (BitVec 32) := do
  let be32 ← read bytes limit buf 4
  return networkToHost 4 be32

def checksum (buf len : ℤ) : Except LengthFault (BitVec 32) := do
  let data ← read bytes limit buf len
  return codec.adler32 data

def validateChecksum (buf len : ℤ) : Except LengthFault Bool := do
  let expectedCheckSum ← asInt32 bytes limit (buf + len - kChecksumLen)
  let checkSum ← checksum codec bytes limit buf (← int (len - kChecksumLen))
  return checkSum = expectedCheckSum

def parse (buf len : ℤ) : Except LengthFault (Except ErrorCode M) := do
  let valid ← validateChecksum codec bytes limit buf len
  if valid then
    let start ← read bytes limit buf codec.tag.length
    if start = codec.tag then
      let dataLen ← int ((← int (len - kChecksumLen)) - codec.tag.length)
      let data ← read bytes limit (buf + codec.tag.length) dataLen
      match codec.parseFromBuffer data with
      | some message => return .ok message
      | none => return .error .kParseError
    else return .error .kUnknownMessageType
  else return .error .kCheckSumError

end Frame

/-- A frame that has arrived, up to `limit`. -/
def passFrame (limit len : ℤ) : Except LengthFault (Verdict Unit (CodecEvent M)) := do
  let frame ← read bytes limit 0 limit
  let retrieved ← size limit
  if codec.skips frame then return .next () retrieved []
  else
    match ← parse codec bytes limit kHeaderLen len with
    | .ok message => return .next () retrieved [.messageCallback message]
    | .error errorCode => return .halt () 0 [.errorCallback errorCode]

/-- One pass through the loop of `onMessage`. -/
def pass : Except LengthFault (Verdict Unit (CodecEvent M)) := do
  let kMinMessageLen ← kMinMessageLen codec
  let least ← size (← int (kMinMessageLen + kHeaderLen))
  if least ≤ bytes.length then
    let header ← read bytes bytes.length 0 kHeaderLen
    let len := (networkToHost 4 header).toInt
    if len > kMaxMessageLen ∨ len < kMinMessageLen then
      return .halt () 0 [.errorCallback .kInvalidLength]
    else
      let frameLen ← int (kHeaderLen + len)
      if (← size frameLen) ≤ bytes.length then passFrame codec bytes frameLen len
      else return .wait
  else return .wait

/-- The loop, with the events and the bytes that stay. -/
def passes : ℕ → List UInt8 → Except LengthFault (List (CodecEvent M) × List UInt8)
  | 0, _ => .error .endless
  | fuel + 1, bytes => do
    match ← pass codec bytes with
    | .wait => return ([], bytes)
    | .halt _ _ events => return (events, bytes)
    | .next _ n events =>
      let (later, rest) ← passes fuel (bytes.drop n)
      return (events ++ later, rest)

def onMessage : Except LengthFault (List (CodecEvent M) × List UInt8) :=
  passes codec (bytes.length + 1) bytes

variable {codec} {bytes}

theorem int_ok {n : ℤ} (hlow : -2147483648 ≤ n) (hhigh : n ≤ 2147483647) : int n = .ok n :=
  int32_ok hlow hhigh

theorem size_ok (n : ℕ) : size n = .ok n := by
  rw [size, if_pos (Int.natCast_nonneg n), Int.toNat_natCast]

theorem read_ok {limit offset len : ℕ} (hframe : offset + len ≤ limit)
    (hbytes : limit ≤ bytes.length) :
    read bytes limit offset len = .ok (slice bytes offset (offset + len)) := by
  rw [read, size_ok, ok_bind, if_neg (by omega), if_neg (by omega), Int.toNat_natCast]
  rfl

theorem parse_ok {n : ℕ} (hmin : codec.kMinMessageLen ≤ n) (hmax : n ≤ kMaxMessageLen)
    (hall : kHeaderLen + n ≤ bytes.length) :
    parse codec bytes (kHeaderLen + n : ℕ) kHeaderLen n =
      .ok (codec.decode (slice bytes kHeaderLen (kHeaderLen + n))) := by
  unfold ProtobufCodecLite.kMinMessageLen at hmin
  unfold kMaxMessageLen at hmax
  obtain ⟨k, rfl⟩ := Nat.exists_eq_add_of_le' ((Nat.le_add_left _ _).trans hmin)
  obtain ⟨d, rfl⟩ := Nat.exists_eq_add_of_le (Nat.add_le_add_iff_right.mp hmin)
  generalize ht : codec.tag.length = t at *
  set limit := kHeaderLen + (t + d + kChecksumLen) with hlimit
  set body := slice bytes kHeaderLen limit with hbody
  have hlen : body.length - kChecksumLen = t + d := by
    rw [hbody, length_slice, min_eq_left hall]
    omega
  have hsum : read bytes limit (kHeaderLen + (t + d) : ℕ) (4 : ℕ) = .ok (body.drop (t + d)) := by
    rw [read_ok (by rw [hlimit]; exact le_rfl) hall, hbody, ← slice_add_left]
    rfl
  have hsigned : read bytes limit kHeaderLen (t + d : ℕ) = .ok (body.take (t + d)) := by
    rw [read_ok (by omega) hall, take_slice (by omega)]
  have hstart : read bytes limit kHeaderLen t = .ok (body.take t) := by
    rw [read_ok (by omega) hall, take_slice (by omega)]
  have hpayload : read bytes limit (kHeaderLen + t : ℕ) d =
      .ok ((body.take (t + d)).drop t) := by
    rw [read_ok (by omega) hall, take_slice (by omega), ← slice_add_left, Nat.add_assoc]
  have hoff : (kHeaderLen : ℤ) + (t + d + kChecksumLen : ℕ) - kChecksumLen =
      (kHeaderLen + (t + d) : ℕ) := by
    push_cast
    ring
  have hcut : int ((t + d + kChecksumLen : ℕ) - kChecksumLen : ℤ) = .ok (t + d : ℕ) := by
    rw [int_ok (by omega) (by omega)]
    push_cast
    ring_nf
  have hrest : int ((t + d : ℕ) - t : ℤ) = .ok (d : ℤ) := by
    rw [int_ok (by omega) (by omega)]
    push_cast
    ring_nf
  have hvalid : validateChecksum codec bytes limit kHeaderLen (t + d + kChecksumLen : ℕ) =
      .ok (codec.adler32 (body.take (t + d)) = networkToHost 4 (body.drop (t + d))) := by
    rw [Nat.cast_ofNat] at hsum
    simp only [validateChecksum, asInt32, checksum, hoff, hsum, hcut, ok_bind, hsigned]
    rfl
  rw [parse, hvalid, ok_bind, hcut, ok_bind, ht, hstart, ok_bind, hrest, ok_bind, ← Nat.cast_add,
    hpayload, ok_bind, decode, hlen, ht]
  by_cases hok : codec.adler32 (body.take (t + d)) = networkToHost 4 (body.drop (t + d))
  · by_cases heq : body.take t = codec.tag
    · cases codec.parseFromBuffer ((body.take (t + d)).drop t) <;> simp [hok, heq]
    · simp [hok, heq]
  · simp [hok]

theorem passFrame_ok {n : ℕ} (hmin : codec.kMinMessageLen ≤ n) (hmax : n ≤ kMaxMessageLen)
    (hall : kHeaderLen + n ≤ bytes.length) :
    passFrame codec bytes (kHeaderLen + n : ℕ) n =
      .ok (codec.judge (bytes.take (kHeaderLen + n))) := by
  have hframe : read bytes (kHeaderLen + n : ℕ) (0 : ℕ) (kHeaderLen + n : ℕ) =
      .ok (bytes.take (kHeaderLen + n)) := by
    rw [read_ok (by omega) hall, Nat.zero_add]
    rfl
  have hlen : (bytes.take (kHeaderLen + n)).length = kHeaderLen + n := by
    rw [List.length_take, min_eq_left hall]
  have hbody : slice bytes kHeaderLen (kHeaderLen + n) =
      (bytes.take (kHeaderLen + n)).drop kHeaderLen := rfl
  unfold passFrame judge
  simp only [Nat.cast_zero] at hframe
  rw [hframe, ok_bind, size_ok, ok_bind, parse_ok hmin hmax hall, ok_bind, hlen, hbody]
  split_ifs
  · rfl
  · cases codec.decode ((bytes.take (kHeaderLen + n)).drop kHeaderLen) <;> rfl

theorem pass_ok (htag : codec.tag.length < kMaxMessageLen) (bytes : List UInt8) :
    pass codec bytes = .ok (codec.verdict bytes) := by
  have hmin : kMinMessageLen codec = .ok (codec.kMinMessageLen : ℤ) := by
    unfold kMinMessageLen ProtobufCodecLite.kMinMessageLen
    unfold kMaxMessageLen at htag
    rw [int_ok (by omega) (by unfold kChecksumLen; omega), Nat.cast_add]
  have hleast : int ((codec.kMinMessageLen : ℤ) + kHeaderLen) =
      .ok (codec.kMinMessageLen + kHeaderLen : ℕ) := by
    unfold ProtobufCodecLite.kMinMessageLen kHeaderLen kChecksumLen
    unfold kMaxMessageLen at htag
    rw [int_ok (by omega) (by omega)]
    push_cast
    rfl
  rw [pass, hmin, ok_bind, hleast, ok_bind, size_ok, ok_bind, verdict]
  by_cases hshort : bytes.length < codec.kMinMessageLen + kHeaderLen
  · rw [if_neg (not_le.mpr hshort), if_pos hshort]
    rfl
  rw [if_pos (not_lt.mp hshort), if_neg hshort]
  have hheader : read bytes bytes.length 0 kHeaderLen = .ok (bytes.take kHeaderLen) := by
    have hread : read bytes bytes.length (0 : ℕ) kHeaderLen =
        .ok (slice bytes 0 (0 + kHeaderLen)) := read_ok (by omega) le_rfl
    rwa [Nat.zero_add] at hread
  rw [hheader, ok_bind, ← frameLen]
  by_cases hbad : frameLen bytes > kMaxMessageLen ∨ frameLen bytes < codec.kMinMessageLen
  · rw [if_pos hbad, if_pos hbad]
    rfl
  rw [if_neg hbad, if_neg hbad]
  push Not at hbad
  obtain ⟨n, hn⟩ := Int.eq_ofNat_of_zero_le (show 0 ≤ frameLen bytes by omega)
  rw [hn] at hbad ⊢
  have hframe : int ((kHeaderLen : ℤ) + n) = .ok (kHeaderLen + n : ℕ) := by
    unfold kMaxMessageLen at hbad
    unfold kHeaderLen
    rw [int_ok (by omega) (by omega), Nat.cast_add]
  rw [hframe, ok_bind, size_ok, ok_bind, Int.toNat_natCast]
  by_cases hall : bytes.length < kHeaderLen + n
  · rw [if_neg (not_le.mpr hall), if_pos hall]
    rfl
  · rw [if_pos (not_lt.mp hall), if_neg hall]
    exact passFrame_ok (by omega) (by omega) (not_lt.mp hall)

theorem passes_ok (htag : codec.tag.length < kMaxMessageLen) {fuel : ℕ} {bytes : List UInt8}
    (h : bytes.length < fuel) :
    passes codec fuel bytes =
      .ok ((codec.parser.drain () bytes).out, (codec.parser.drain () bytes).rest) := by
  induction fuel generalizing bytes with
  | zero => omega
  | succ fuel ih =>
    rw [passes, pass_ok htag, ok_bind]
    cases hv : codec.verdict bytes with
    | wait =>
      have hstep : codec.parser.step () bytes = .wait := hv
      rw [Parser.drain_wait hstep]
      rfl
    | halt u n out =>
      have hstep : codec.parser.step () bytes = .halt u n out := hv
      rw [Parser.drain_halt hstep, codec.verdict_halt hv]
      rfl
    | next u n out =>
      have hstep : codec.parser.step () bytes = .next u n out := hv
      have htaken := codec.verdict_next hv
      have hless : (bytes.drop n).length < fuel := by
        rw [List.length_drop]
        omega
      rw [Parser.drain_next hstep]
      simp only [ih hless, ok_bind]
      rfl

/-- Whatever is in the buffer, no length overflows and no read leaves the readable
bytes or the announced frame: the loop ends, with the result of `onMessage`. -/
theorem lengths_stay_in_frame (codec : ProtobufCodecLite M)
    (htag : codec.tag.length < kMaxMessageLen) (buf : Buffer) :
    ∃ events buf', codec.onMessage buf = .ok (events, buf') ∧
      onMessage codec buf.contents = .ok (events, buf'.contents) := by
  obtain ⟨buf', hbuf', hrest⟩ := codec.onMessage_ok buf
  refine ⟨_, buf', hbuf', ?_⟩
  rw [hrest, onMessage, passes_ok htag (Nat.lt_succ_self _)]

/-- A frame that announces the longest negative length. -/
theorem lengths_stay_in_frame_plain :
    let buf : Buffer :=
      { buffer := List.replicate 8 0 ++ [128, 0, 0, 0, 82, 80, 67, 48, 2, 242, 1, 22]
        readerIndex := 8
        writerIndex := 20
        reader_le := by decide
        writer_le := by decide
        prepend_le := by decide }
    plainCodec.tag.length < kMaxMessageLen ∧
      ∃ events buf', plainCodec.onMessage buf = .ok (events, buf') ∧
        onMessage plainCodec buf.contents = .ok (events, buf'.contents) :=
  ⟨by decide, lengths_stay_in_frame plainCodec (by decide) _⟩

end ProtobufCodecLite.Lengths
end Muduo
