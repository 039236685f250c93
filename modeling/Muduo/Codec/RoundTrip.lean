import Muduo.Codec.Decoder

/-!
# Frames survive the stream

What `fillEmptyBuffer` produces for some messages, cut at any places and
received piece by piece, gives back the messages. The sender builds a frame from
the inside: payload, checksum behind it, length in front. The receiver reads it
from the outside, with lengths computed anew.
-/

namespace Muduo

open Foundations

/-- Adler-32, begun with 1. -/
def adler32 (bytes : List UInt8) : BitVec 32 :=
  let (a, b) := bytes.foldl
    (fun (a, b) byte => ((a + byte.toNat) % 65521, (b + (a + byte.toNat)) % 65521)) (1, 0)
  BitVec.ofNat 32 (b * 65536 + a)

namespace ProtobufCodecLite

variable {M : Type} (codec : ProtobufCodecLite M)

def signedPart (message : M) : List UInt8 := codec.tag ++ codec.format.serialize message

def body (message : M) : List UInt8 :=
  codec.signedPart message ++ hostToNetwork 4 (codec.adler32 (codec.signedPart message))

def frame (message : M) : List UInt8 :=
  hostToNetwork 4 (BitVec.ofNat 32 (codec.body message).length) ++ codec.body message

theorem length_body (message : M) :
    (codec.body message).length =
      codec.tag.length + (codec.format.serialize message).length + kChecksumLen := by
  simp [body, signedPart, kChecksumLen, add_assoc]

theorem length_frame (message : M) :
    (codec.frame message).length = kHeaderLen + (codec.body message).length := by
  simp [frame, kHeaderLen]

theorem serializeToBuffer_ok (hformat : codec.format.Lawful) (message : M) (buf : Buffer) :
    ∃ buf', codec.serializeToBuffer message buf =
        .ok ((codec.format.serialize message).length, buf') ∧
      buf'.contents = buf.contents ++ codec.format.serialize message ∧
      min buf.prependableBytes Buffer.kCheapPrepend ≤ buf'.prependableBytes := by
  obtain ⟨b₀, h₀, hc₀, hroom, hp₀⟩ :=
    buf.ensureWritableBytes_spec ((codec.format.serialize message).length + kChecksumLen)
  have hspace : (codec.format.serialize message).length ≤ b₀.writableBytes := by omega
  obtain ⟨b₁, h₁, hw₁, hp₁, hadv⟩ := Buffer.copyToWritable_spec hspace
  have hfit : (codec.format.serialize message).length ≤ b₁.writableBytes := by omega
  refine ⟨b₁.advance _ hfit, ?_, ?_, hp₀.trans_eq hp₁.symm⟩
  · simp [serializeToBuffer, hformat.byteSize_eq, h₀, h₁, Buffer.hasWritten, hfit]
  · rw [hadv _ hfit rfl, hc₀]

theorem checksum_ok {buf : Buffer} (h : buf.readableBytes < 2 ^ 31) :
    codec.checksum buf.contents buf.toStringPiece.length = .ok (codec.adler32 buf.contents) := by
  have hread : readAt buf.contents 0 buf.readableBytes = .ok buf.contents := by
    rw [← buf.length_contents]
    have := readAt_ok buf.contents 0 buf.contents.length (by simp)
    simpa only [slice, Nat.zero_add, List.take_length, List.drop_zero, Nat.cast_zero] using this
  simp [checksum, Buffer.toStringPiece_length h, hread]

theorem fillEmptyBuffer_ok (hformat : codec.format.Lawful) {message : M}
    (hlen : (codec.body message).length < 2 ^ 31) {buf : Buffer}
    (hempty : buf.contents = []) (hroom : kHeaderLen ≤ buf.prependableBytes) :
    ∃ buf', codec.fillEmptyBuffer buf message = .ok buf' ∧
      buf'.contents = codec.frame message := by
  have hzero : buf.readableBytes = 0 := buf.contents_eq_nil_iff.mp hempty
  obtain ⟨b₁, h₁, hc₁, hp₁⟩ := buf.append_spec codec.tag
  obtain ⟨b₂, h₂, hc₂, hp₂⟩ := codec.serializeToBuffer_ok hformat message b₁
  have hsigned : b₂.contents = codec.signedPart message := by
    rw [hc₂, hc₁, hempty]
    rfl
  have hsmall : b₂.readableBytes < 2 ^ 31 := by
    rw [← Buffer.length_contents, hsigned]
    rw [body, List.length_append] at hlen
    omega
  obtain ⟨b₃, h₃, hc₃, hp₃⟩ := b₂.append_spec (hostToNetwork 4 (codec.adler32 b₂.contents))
  have hbody : b₃.contents = codec.body message := by
    rw [hc₃, hsigned]
    rfl
  have hsize : b₃.readableBytes = (codec.body message).length := by
    rw [← Buffer.length_contents, hbody]
  have hfront : (hostToNetwork 4 (BitVec.ofNat 32 b₃.readableBytes)).length ≤
      b₃.prependableBytes := by
    rw [length_hostToNetwork]
    unfold kHeaderLen at hroom
    unfold Buffer.kCheapPrepend at hp₁ hp₂ hp₃
    omega
  obtain ⟨b₄, h₄, hc₄⟩ := Buffer.prepend_spec hfront
  refine ⟨b₄, ?_, ?_⟩
  · rw [fillEmptyBuffer, assertThat_pos hzero, ok_bind, h₁, ok_bind, h₂, ok_bind]
    show (codec.checksum b₂.contents b₂.toStringPiece.length >>= _) = _
    rw [codec.checksum_ok hsmall, ok_bind]
    have h₃' : b₂.appendInt32 (codec.adler32 b₂.contents) = .ok b₃ := h₃
    rw [h₃', ok_bind, assertThat_pos (by rw [hsize, length_body]), ok_bind]
    exact h₄
  · rw [hc₄, hbody, hsize]
    rfl

theorem decode_body (hformat : codec.format.Lawful) (message : M) :
    codec.decode (codec.body message) = .ok message := by
  have hcut : (codec.body message).length - kChecksumLen = (codec.signedPart message).length := by
    simp [body, kChecksumLen]
  have hsum : (codec.body message).drop (codec.signedPart message).length =
      hostToNetwork 4 (codec.adler32 (codec.signedPart message)) := by
    rw [body, List.drop_left]
  have hsigned : (codec.body message).take (codec.signedPart message).length =
      codec.signedPart message := by
    rw [body, List.take_left]
  have htag : (codec.body message).take codec.tag.length = codec.tag := by
    rw [body, signedPart, List.append_assoc, List.take_left]
  have hpayload : (codec.signedPart message).drop codec.tag.length =
      codec.format.serialize message := by
    rw [signedPart, List.drop_left]
  simp [decode, hcut, hsum, hsigned, htag, hpayload, parseFromBuffer, hformat.parse_serialize]

theorem frameLen_frame {message : M} (hlen : (codec.body message).length < 2 ^ 31)
    (more : List UInt8) :
    frameLen (codec.frame message ++ more) = (codec.body message).length := by
  have htake : (codec.frame message ++ more).take kHeaderLen =
      hostToNetwork 4 (BitVec.ofNat 32 (codec.body message).length) := by
    rw [frame, List.append_assoc, kHeaderLen]
    exact List.take_left' (length_hostToNetwork 4 _)
  have hnat : (BitVec.ofNat 32 (codec.body message).length).toNat =
      (codec.body message).length := by
    rw [BitVec.toNat_ofNat, Nat.mod_eq_of_lt (by omega)]
  rw [frameLen, htake, networkToHost_hostToNetwork, BitVec.toInt_eq_toNat_of_lt, hnat]
  rw [hnat]
  omega

theorem verdict_frame (hformat : codec.format.Lawful) (hraw : codec.rawCb = none) {message : M}
    (hlen : (codec.body message).length ≤ kMaxMessageLen) (more : List UInt8) :
    codec.verdict (codec.frame message ++ more) =
      .next () (codec.frame message).length [.messageCallback message] := by
  have hmin : codec.kMinMessageLen ≤ (codec.body message).length := by
    rw [length_body, kMinMessageLen]
    omega
  have htotal := codec.length_frame message
  have hjudge : codec.judge (codec.frame message) =
      .next () (codec.frame message).length [.messageCallback message] := by
    have hdrop : (codec.frame message).drop kHeaderLen = codec.body message := by
      rw [frame, kHeaderLen]
      exact List.drop_left' (length_hostToNetwork 4 _)
    simp [judge, skips, hraw, hdrop, codec.decode_body hformat]
  unfold verdict
  rw [codec.frameLen_frame (hlen.trans_lt (by decide)) more, Int.toNat_natCast, List.length_append,
    ← htotal,
    List.take_left, hjudge]
  rw [if_neg (by omega), if_neg (by omega), if_neg (by omega)]

theorem drain_frames (hformat : codec.format.Lawful) (hraw : codec.rawCb = none)
    (messages : List M) (hlen : ∀ m ∈ messages, (codec.body m).length ≤ kMaxMessageLen) :
    codec.parser.drain () (messages.map codec.frame).flatten =
      ⟨(), [], messages.map .messageCallback, false⟩ := by
  induction messages with
  | nil => exact codec.drain_nil
  | cons m messages ih =>
    have hstep : codec.parser.step () (codec.frame m ++ (messages.map codec.frame).flatten) =
        .next () (codec.frame m).length [.messageCallback m] :=
      codec.verdict_frame hformat hraw (hlen m (by simp)) _
    have hrest := ih (fun m' hm' => hlen m' (by simp [hm']))
    rw [List.map_cons, List.flatten_cons, Parser.drain_next hstep, List.drop_left, hrest]
    rfl

theorem fill_all_ok (hformat : codec.format.Lawful) (sends : List (Buffer × M))
    (hsends : ∀ s ∈ sends, s.1.contents = [] ∧ kHeaderLen ≤ s.1.prependableBytes ∧
      (codec.body s.2).length ≤ kMaxMessageLen) :
    ∃ filled, sends.mapM (fun s => codec.fillEmptyBuffer s.1 s.2) = .ok filled ∧
      filled.map Buffer.contents = sends.map fun s => codec.frame s.2 := by
  induction sends with
  | nil => exact ⟨[], rfl, rfl⟩
  | cons s sends ih =>
    obtain ⟨hempty, hroom, hlen⟩ := hsends s (by simp)
    obtain ⟨buf, hbuf, hcontents⟩ := codec.fillEmptyBuffer_ok hformat
      (hlen.trans_lt (by decide)) hempty hroom
    obtain ⟨filled, hfilled, hframes⟩ := ih fun s' hs' => hsends s' (by simp [hs'])
    refine ⟨buf :: filled, ?_, ?_⟩
    · rw [List.mapM_cons, hbuf, ok_bind, hfilled]
      rfl
    · simp [hcontents, hframes]

/-- Messages whose frames are not too long are put into empty buffers, each with
room for the header. However the bytes of these buffers are cut, receiving the
pieces delivers the messages in order, reports no error and leaves nothing. -/
theorem frames_round_trip (hformat : codec.format.Lawful) (hraw : codec.rawCb = none)
    (sends : List (Buffer × M))
    (hsends : ∀ s ∈ sends, s.1.contents = [] ∧ kHeaderLen ≤ s.1.prependableBytes ∧
      codec.tag.length + (codec.format.serialize s.2).length + kChecksumLen ≤ kMaxMessageLen) :
    ∃ filled, sends.mapM (fun s => codec.fillEmptyBuffer s.1 s.2) = .ok filled ∧
      ∀ chunks : List (List UInt8), chunks.flatten = (filled.map Buffer.contents).flatten →
        ∀ input : Buffer, input.contents = [] →
          ∃ input', codec.receive input chunks =
              .ok (sends.map fun s => .messageCallback s.2, input') ∧
            input'.contents = [] := by
  simp only [← length_body] at hsends
  obtain ⟨filled, hfilled, hframes⟩ := codec.fill_all_ok hformat sends hsends
  refine ⟨filled, hfilled, ?_⟩
  intro chunks hchunks input hinput
  have hflat : chunks.flatten = ((sends.map Prod.snd).map codec.frame).flatten := by
    rw [hchunks, hframes, List.map_map]
    rfl
  have hdrain := codec.drain_frames hformat hraw (sends.map Prod.snd) (by
    intro m hm
    obtain ⟨s, hs, rfl⟩ := List.mem_map.mp hm
    exact (hsends s hs).2.2)
  rw [← hflat] at hdrain
  obtain ⟨input', hreceive, hrest⟩ := codec.receive_stream chunks (by rw [hdrain]) hinput
  rw [hdrain] at hreceive hrest
  exact ⟨input', by simpa [Function.comp_def] using hreceive, hrest⟩

def plainCodec : ProtobufCodecLite (List UInt8) where
  tag := [82, 80, 67, 48]
  format := { byteSize := List.length, serialize := id, parse := some }
  adler32 := Muduo.adler32
  rawCb := none

/-- Two messages, one of them empty, in buffers as the constructor leaves them. -/
theorem frames_round_trip_plain :
    ∃ filled, [(Buffer.ofSize 0, [1, 2, 3]), (default, [])].mapM
        (fun s => plainCodec.fillEmptyBuffer s.1 s.2) = .ok filled ∧
      ∀ chunks : List (List UInt8), chunks.flatten = (filled.map Buffer.contents).flatten →
        ∀ input : Buffer, input.contents = [] →
          ∃ input', plainCodec.receive input chunks =
              .ok ([.messageCallback [1, 2, 3], .messageCallback []], input') ∧
            input'.contents = [] := by
  apply frames_round_trip plainCodec ⟨fun _ => rfl, fun _ => rfl⟩ rfl
  intro s hs
  simp only [List.mem_cons, List.not_mem_nil, or_false] at hs
  rcases hs with rfl | rfl
  · exact ⟨Buffer.contents_ofSize 0, by decide, by decide⟩
  · exact ⟨Buffer.contents_ofSize _, by decide, by decide⟩

end ProtobufCodecLite
end Muduo
