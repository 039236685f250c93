import Muduo.Buffer.Integers

/-!
# Framing of protobuf messages

A frame is a length, a tag, a payload and a checksum over tag and payload. The
payload format and the checksum are libraries of their own and are parameters
here. Pointers into a frame are offsets, and a read outside the frame is a
fault, so that nothing has to be assumed of lengths that came from the peer.
-/

namespace Muduo

open Foundations

/-- What the codec uses of a message type. -/
structure PayloadFormat (M : Type) where
  byteSize : M → ℕ
  /-- the bytes written by `SerializeWithCachedSizesToArray` -/
  serialize : M → List UInt8
  /-- `ParseFromArray` into a new message -/
  parse : List UInt8 → Option M

structure PayloadFormat.Lawful {M : Type} (format : PayloadFormat M) : Prop where
  byteSize_eq : ∀ m, format.byteSize m = (format.serialize m).length
  parse_serialize : ∀ m, format.parse (format.serialize m) = some m

structure ProtobufCodecLite (M : Type) where
  tag : List UInt8
  format : PayloadFormat M
  /-- `adler32(1, buf, len)` as an `int32_t` -/
  adler32 : List UInt8 → BitVec 32
  /-- the raw callback, when it is set, by what it returns for a frame -/
  rawCb : Option (List UInt8 → Bool)

/-- The errors that the codec reports. -/
inductive ErrorCode where
  | kInvalidLength
  | kCheckSumError
  | kUnknownMessageType
  | kParseError
  deriving DecidableEq, Repr

/-- The callbacks that `onMessage` runs. -/
inductive CodecEvent (M : Type) where
  | messageCallback (message : M)
  | errorCallback (errorCode : ErrorCode)
  deriving DecidableEq, Repr

/-- `len` bytes of a frame from `offset` on. -/
def readAt (frame : List UInt8) (offset len : ℤ) : Except Fault (List UInt8) :=
  if 0 ≤ offset ∧ 0 ≤ len ∧ offset + len ≤ frame.length then
    .ok (slice frame offset.toNat (offset + len).toNat)
  else .error .outOfBounds

theorem readAt_ok (frame : List UInt8) (offset len : ℕ) (h : offset + len ≤ frame.length) :
    readAt frame offset len = .ok (slice frame offset (offset + len)) := by
  rw [readAt, if_pos (by omega)]
  congr

namespace ProtobufCodecLite

def kHeaderLen : ℕ := 4

def kChecksumLen : ℕ := 4

def kMaxMessageLen : ℕ := 64 * 1024 * 1024

variable {M : Type} (codec : ProtobufCodecLite M)

def kMinMessageLen : ℕ := codec.tag.length + kChecksumLen

def checksum (buf : List UInt8) (len : ℤ) : Except Fault (BitVec 32) := do
  let data ← readAt buf 0 len
  return codec.adler32 data

/-- The check of the written size ends the process when it fails. -/
def serializeToBuffer (message : M) (buf : Buffer) : Except Fault (ℕ × Buffer) := do
  let byteSize := codec.format.byteSize message
  let buf ← buf.ensureWritableBytes (byteSize + kChecksumLen)
  let data := codec.format.serialize message
  let buf ← buf.copyToWritable data
  if data.length = byteSize then
    let buf ← buf.hasWritten byteSize
    return (byteSize, buf)
  else .error .exception

def fillEmptyBuffer (buf : Buffer) (message : M) : Except Fault Buffer := do
  assertThat (buf.readableBytes = 0)
  let buf ← buf.append codec.tag
  let (byteSize, buf) ← codec.serializeToBuffer message buf
  let checkSum ← codec.checksum buf.contents buf.toStringPiece.length
  let buf ← buf.appendInt32 checkSum
  assertThat (buf.readableBytes = codec.tag.length + byteSize + kChecksumLen)
  let len : BitVec 32 := BitVec.ofNat 32 buf.readableBytes
  buf.prepend (hostToNetwork 4 len)

def asInt32 (buf : List UInt8) (offset : ℤ) : Except Fault (BitVec 32) := do
  let be32 ← readAt buf offset 4
  return networkToHost 4 be32

def validateChecksum (buf : List UInt8) (len : ℤ) : Except Fault Bool := do
  let expectedCheckSum ← asInt32 buf (len - kChecksumLen)
  let checkSum ← codec.checksum buf (len - kChecksumLen)
  return checkSum = expectedCheckSum

def parseFromBuffer (buf : List UInt8) : Option M := codec.format.parse buf

/-- The message, where the source returns `kNoError`. -/
def parse (buf : List UInt8) (len : ℤ) : Except Fault (Except ErrorCode M) := do
  let valid ← codec.validateChecksum buf len
  if valid then
    let start ← readAt buf 0 codec.tag.length
    if start = codec.tag then
      let dataLen := len - kChecksumLen - codec.tag.length
      let data ← readAt buf codec.tag.length dataLen
      match codec.parseFromBuffer data with
      | some message => return .ok message
      | none => return .error .kParseError
    else return .error .kUnknownMessageType
  else return .error .kCheckSumError

/-- Whether the raw callback is set and wants the frame for itself. -/
def skips (frame : List UInt8) : Bool :=
  match codec.rawCb with
  | some rawCb => !rawCb frame
  | none => false

/-- One pass through the loop of `onMessage`: it breaks, or goes on. -/
inductive Pass (M : Type) where
  | stop (events : List (CodecEvent M))
  | again (events : List (CodecEvent M)) (buf : Buffer)

/-- A frame whose announced length is in range and that has arrived. -/
def passFrame (buf : Buffer) (len : ℤ) : Except Fault (Pass M) := do
  let frame := buf.contents.take (kHeaderLen + len.toNat)
  if codec.skips frame then
    let buf ← buf.retrieve (kHeaderLen + len.toNat)
    return .again [] buf
  else
    match ← codec.parse (frame.drop kHeaderLen) len with
    | .ok message =>
      let buf ← buf.retrieve (kHeaderLen + len.toNat)
      return .again [.messageCallback message] buf
    | .error errorCode => return .stop [.errorCallback errorCode]

def pass (buf : Buffer) : Except Fault (Pass M) :=
  if codec.kMinMessageLen + kHeaderLen ≤ buf.readableBytes then do
    let len ← buf.peekInt32
    if len.toInt > kMaxMessageLen ∨ len.toInt < codec.kMinMessageLen then
      return .stop [.errorCallback .kInvalidLength]
    else if kHeaderLen + len.toInt.toNat ≤ buf.readableBytes then codec.passFrame buf len.toInt
    else return .stop []
  else .ok (.stop [])

/-- The loop; a pass that goes on has consumed something. -/
def passes : ℕ → Buffer → Except Fault (List (CodecEvent M) × Buffer)
  | 0, _ => .error .endless
  | fuel + 1, buf => do
    match ← codec.pass buf with
    | .stop events => return (events, buf)
    | .again events buf =>
      let (later, buf) ← passes fuel buf
      return (events ++ later, buf)

def onMessage (buf : Buffer) : Except Fault (List (CodecEvent M) × Buffer) :=
  codec.passes (buf.readableBytes + 1) buf

/-- Chunks arrive one by one, and `onMessage` is called after each. -/
def receive : Buffer → List (List UInt8) → Except Fault (List (CodecEvent M) × Buffer)
  | buf, [] => .ok ([], buf)
  | buf, chunk :: chunks => do
    let buf ← buf.append chunk
    let (events, buf) ← codec.onMessage buf
    let (later, buf) ← receive buf chunks
    return (events ++ later, buf)

end ProtobufCodecLite
end Muduo
