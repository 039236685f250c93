import Muduo.Foundations.Incremental
import Muduo.Codec.ProtobufCodecLite

/-!
# The decoder as an incremental parser

`onMessage` decides from the bytes in front of it alone. As a function of those
bytes one pass of its loop is a step of an incremental parser, with decisions
that more input does not change, and the calls of `onMessage` over an input
buffer are that parser fed with the chunks.
-/

namespace Muduo

open Foundations

namespace ProtobufCodecLite

variable {M : Type} (codec : ProtobufCodecLite M)

/-- What `parse` makes of the bytes behind the header. -/
def decode (body : List UInt8) : Except ErrorCode M :=
  let signed := body.take (body.length - kChecksumLen)
  if codec.adler32 signed = networkToHost 4 (body.drop (body.length - kChecksumLen)) then
    if body.take codec.tag.length = codec.tag then
      match codec.parseFromBuffer (signed.drop codec.tag.length) with
      | some message => .ok message
      | none => .error .kParseError
    else .error .kUnknownMessageType
  else .error .kCheckSumError

/-- The length in the header, as an `int32_t`. -/
def frameLen (bytes : List UInt8) : ℤ := (networkToHost 4 (bytes.take kHeaderLen)).toInt

def judge (frame : List UInt8) : Verdict Unit (CodecEvent M) :=
  if codec.skips frame then .next () frame.length []
  else
    match codec.decode (frame.drop kHeaderLen) with
    | .ok message => .next () frame.length [.messageCallback message]
    | .error errorCode => .halt () 0 [.errorCallback errorCode]

/-- One pass of the loop, as a function of the readable bytes. -/
def verdict (bytes : List UInt8) : Verdict Unit (CodecEvent M) :=
  if bytes.length < codec.kMinMessageLen + kHeaderLen then .wait
  else if frameLen bytes > kMaxMessageLen ∨ frameLen bytes < codec.kMinMessageLen then
    .halt () 0 [.errorCallback .kInvalidLength]
  else if bytes.length < kHeaderLen + (frameLen bytes).toNat then .wait
  else codec.judge (bytes.take (kHeaderLen + (frameLen bytes).toNat))

theorem frameLen_append (bytes more : List UInt8) (h : kHeaderLen ≤ bytes.length) :
    frameLen (bytes ++ more) = frameLen bytes := by
  rw [frameLen, frameLen, List.take_append_of_le_length h]

theorem verdict_append (bytes more : List UInt8) (h : codec.verdict bytes ≠ .wait) :
    codec.verdict (bytes ++ more) = codec.verdict bytes := by
  have hlonger : bytes.length ≤ (bytes ++ more).length := by simp
  unfold verdict at h ⊢
  by_cases hmin : bytes.length < codec.kMinMessageLen + kHeaderLen
  · simp [hmin] at h
  · rw [if_neg hmin] at h ⊢
    rw [if_neg (by omega), frameLen_append bytes more (by omega)]
    by_cases hbad : frameLen bytes > kMaxMessageLen ∨ frameLen bytes < codec.kMinMessageLen
    · rw [if_pos hbad, if_pos hbad]
    · by_cases hall : bytes.length < kHeaderLen + (frameLen bytes).toNat
      · simp [hbad, hall] at h
      · rw [if_neg hbad, if_neg hbad, if_neg hall, if_neg (by omega),
          List.take_append_of_le_length (not_lt.mp hall)]

/-- A frame is taken, with a message or without one, or it is left where it is. -/
theorem judge_cases (frame : List UInt8) :
    (∃ messages : List M,
      codec.judge frame = .next () frame.length (messages.map .messageCallback)) ∨
    ∃ errorCode, codec.judge frame = .halt () 0 [.errorCallback errorCode] := by
  unfold judge
  split_ifs
  · exact .inl ⟨[], rfl⟩
  · cases codec.decode (frame.drop kHeaderLen) with
    | ok message => exact .inl ⟨[message], rfl⟩
    | error errorCode => exact .inr ⟨errorCode, rfl⟩

theorem judge_next {frame : List UInt8} {u : Unit} {n : ℕ} {out : List (CodecEvent M)}
    (h : codec.judge frame = .next u n out) :
    n = frame.length ∧ ∃ messages : List M, out = messages.map .messageCallback := by
  rcases codec.judge_cases frame with ⟨messages, hnext⟩ | ⟨errorCode, hhalt⟩
  · cases hnext.symm.trans h
    exact ⟨rfl, messages, rfl⟩
  · cases hhalt.symm.trans h

theorem judge_halt {frame : List UInt8} {u : Unit} {n : ℕ} {out : List (CodecEvent M)}
    (h : codec.judge frame = .halt u n out) : n = 0 ∧ ∃ e, out = [.errorCallback e] := by
  rcases codec.judge_cases frame with ⟨messages, hnext⟩ | ⟨errorCode, hhalt⟩
  · cases hnext.symm.trans h
  · cases hhalt.symm.trans h
    exact ⟨rfl, errorCode, rfl⟩

theorem verdict_next {bytes : List UInt8} {u : Unit} {n : ℕ} {out : List (CodecEvent M)}
    (h : codec.verdict bytes = .next u n out) : 0 < n ∧ n ≤ bytes.length := by
  unfold verdict at h
  split_ifs at h with hmin hbad hall
  have hn := (codec.judge_next h).1
  rw [List.length_take] at hn
  unfold kHeaderLen at hn hmin hall
  omega

theorem verdict_halt {bytes : List UInt8} {u : Unit} {n : ℕ} {out : List (CodecEvent M)}
    (h : codec.verdict bytes = .halt u n out) : n = 0 := by
  unfold verdict at h
  split_ifs at h
  · cases h
    rfl
  · exact (codec.judge_halt h).1

def parser : Parser Unit UInt8 (CodecEvent M) where
  step _ bytes := codec.verdict bytes
  extends_input _ bytes more h := codec.verdict_append bytes more h
  next_takes _ _ _ _ _ h := codec.verdict_next h
  halt_takes _ _ _ _ _ h := by
    rw [codec.verdict_halt h]
    exact Nat.zero_le _

theorem parse_ok (body : List UInt8) (h : codec.kMinMessageLen ≤ body.length) :
    codec.parse body body.length = .ok (codec.decode body) := by
  unfold kMinMessageLen at h
  obtain ⟨n, hn⟩ := Nat.exists_eq_add_of_le' ((Nat.le_add_left _ _).trans h)
  have htag : codec.tag.length ≤ n := by omega
  have hcut : body.length - kChecksumLen = n := by omega
  have hoff : (body.length : ℤ) - kChecksumLen = n := by omega
  have hrest : (n : ℤ) - codec.tag.length = (n - codec.tag.length : ℕ) := by omega
  have hsum : readAt body n 4 = .ok (body.drop n) := by
    have := readAt_ok body n 4 hn.ge
    rwa [slice, List.take_of_length_le (by rw [hn]; rfl)] at this
  have hsigned : readAt body 0 n = .ok (body.take n) := by
    simpa [slice] using readAt_ok body 0 n (by omega)
  have hstart : readAt body 0 codec.tag.length = .ok (body.take codec.tag.length) := by
    simpa [slice] using readAt_ok body 0 codec.tag.length (by omega)
  have hpayload : readAt body codec.tag.length (n - codec.tag.length : ℕ) =
      .ok ((body.take n).drop codec.tag.length) := by
    have := readAt_ok body codec.tag.length (n - codec.tag.length) (by omega)
    rwa [Nat.add_sub_cancel' htag] at this
  have hvalid : codec.validateChecksum body body.length =
      .ok (codec.adler32 (body.take n) = networkToHost 4 (body.drop n)) := by
    simp [validateChecksum, asInt32, checksum, hoff, hsum, hsigned]
  simp only [parse, decode, hvalid, hcut, hoff, ok_bind, hstart, hrest, hpayload]
  by_cases hok : codec.adler32 (body.take n) = networkToHost 4 (body.drop n)
  · by_cases heq : body.take codec.tag.length = codec.tag
    · cases hp : codec.parseFromBuffer ((body.take n).drop codec.tag.length) <;> simp [hok, heq]
    · simp [hok, heq]
  · simp [hok]

/-- A pass over a buffer agrees with a step over its content. -/
def Agrees (v : Verdict Unit (CodecEvent M)) (buf : Buffer) : Except Fault (Pass M) → Prop :=
  match v with
  | .wait => fun r => r = .ok (.stop [])
  | .halt _ _ out => fun r => r = .ok (.stop out)
  | .next _ n out => fun r =>
    ∃ buf', r = .ok (.again out buf') ∧ buf'.contents = buf.contents.drop n

theorem passFrame_agrees {buf : Buffer} {len : ℤ} (hmin : codec.kMinMessageLen ≤ len)
    (hall : kHeaderLen + len.toNat ≤ buf.readableBytes) :
    Agrees (codec.judge (buf.contents.take (kHeaderLen + len.toNat))) buf
      (codec.passFrame buf len) := by
  obtain ⟨buf', hbuf', hcontents⟩ := Buffer.retrieve_spec hall
  have hframe : (buf.contents.take (kHeaderLen + len.toNat)).length = kHeaderLen + len.toNat := by
    rw [List.length_take, Buffer.length_contents, min_eq_left hall]
  have hbody : ((buf.contents.take (kHeaderLen + len.toNat)).drop kHeaderLen).length = len := by
    rw [List.length_drop, hframe]
    omega
  have hparse : codec.parse ((buf.contents.take (kHeaderLen + len.toNat)).drop kHeaderLen) len =
      .ok (codec.decode ((buf.contents.take (kHeaderLen + len.toNat)).drop kHeaderLen)) := by
    have := codec.parse_ok ((buf.contents.take (kHeaderLen + len.toNat)).drop kHeaderLen) (by omega)
    rwa [hbody] at this
  unfold judge passFrame
  by_cases hskip : codec.skips (buf.contents.take (kHeaderLen + len.toNat)) = true
  · simp only [hskip, if_true, hbuf', ok_bind, hframe]
    exact ⟨buf', rfl, hcontents⟩
  · simp only [hskip, hparse, ok_bind, hframe]
    cases codec.decode ((buf.contents.take (kHeaderLen + len.toNat)).drop kHeaderLen) with
    | ok message =>
      simp only [hbuf', ok_bind]
      exact ⟨buf', rfl, hcontents⟩
    | error errorCode => rfl

theorem pass_agrees (buf : Buffer) :
    Agrees (codec.verdict buf.contents) buf (codec.pass buf) := by
  unfold verdict pass
  rw [Buffer.length_contents]
  by_cases hmin : buf.readableBytes < codec.kMinMessageLen + kHeaderLen
  · rw [if_pos hmin, if_neg (not_le.mpr hmin)]
    rfl
  · have hpeek := buf.peekInt32_ok (by unfold kHeaderLen at hmin; omega)
    have hlen : (networkToHost 4 (buf.contents.take 4)).toInt = frameLen buf.contents := rfl
    rw [if_neg hmin, if_pos (not_lt.mp hmin), hpeek, ok_bind, hlen]
    by_cases hbad : frameLen buf.contents > kMaxMessageLen ∨
        frameLen buf.contents < codec.kMinMessageLen
    · rw [if_pos hbad, if_pos hbad]
      rfl
    · rw [if_neg hbad, if_neg hbad]
      by_cases hall : buf.readableBytes < kHeaderLen + (frameLen buf.contents).toNat
      · rw [if_pos hall, if_neg (not_le.mpr hall)]
        rfl
      · rw [if_neg hall, if_pos (not_lt.mp hall)]
        exact codec.passFrame_agrees (by omega) (not_lt.mp hall)

theorem passes_ok {fuel : ℕ} {buf : Buffer} (h : buf.readableBytes < fuel) :
    ∃ buf', codec.passes fuel buf = .ok ((codec.parser.drain () buf.contents).out, buf') ∧
      buf'.contents = (codec.parser.drain () buf.contents).rest := by
  induction fuel generalizing buf with
  | zero => omega
  | succ fuel ih =>
    have hagrees := codec.pass_agrees buf
    cases hv : codec.verdict buf.contents with
    | wait =>
      have hstep : codec.parser.step () buf.contents = .wait := hv
      rw [hv] at hagrees
      rw [Parser.drain_wait hstep, passes, hagrees]
      exact ⟨buf, rfl, rfl⟩
    | halt u n out =>
      have hstep : codec.parser.step () buf.contents = .halt u n out := hv
      rw [hv] at hagrees
      rw [Parser.drain_halt hstep, passes, hagrees, codec.verdict_halt hv]
      exact ⟨buf, rfl, rfl⟩
    | next u n out =>
      have hstep : codec.parser.step () buf.contents = .next u n out := hv
      rw [hv] at hagrees
      obtain ⟨buf₁, hpass, hcontents⟩ := hagrees
      have htaken := codec.verdict_next hv
      have hless : buf₁.readableBytes < fuel := by
        rw [← Buffer.length_contents, hcontents, List.length_drop, Buffer.length_contents]
        rw [Buffer.length_contents] at htaken
        omega
      obtain ⟨buf', hbuf', hrest⟩ := ih hless
      rw [hcontents] at hbuf' hrest
      rw [Parser.drain_next hstep, passes, hpass]
      exact ⟨buf', by simp [hbuf'], hrest⟩

theorem onMessage_ok (buf : Buffer) :
    ∃ buf', codec.onMessage buf = .ok ((codec.parser.drain () buf.contents).out, buf') ∧
      buf'.contents = (codec.parser.drain () buf.contents).rest :=
  codec.passes_ok (Nat.lt_succ_self _)

/-- As long as no error is met, receiving chunks feeds the parser. -/
theorem receive_ok {p : Progress Unit UInt8 (CodecEvent M)} (chunks : List (List UInt8))
    (h : (chunks.foldl codec.parser.feed p).halted = false) {buf : Buffer}
    (hbuf : buf.contents = p.rest) :
    ∃ events buf', codec.receive buf chunks = .ok (events, buf') ∧
      (chunks.foldl codec.parser.feed p).out = p.out ++ events ∧
      buf'.contents = (chunks.foldl codec.parser.feed p).rest := by
  induction chunks generalizing p buf with
  | nil => exact ⟨[], buf, rfl, by simp, hbuf⟩
  | cons chunk chunks ih =>
    have hp : p.halted = false := Parser.not_halted_of_foldl h
    obtain ⟨buf₁, hbuf₁, hc₁, -⟩ := buf.append_spec chunk
    obtain ⟨buf₂, hbuf₂, hc₂⟩ := codec.onMessage_ok buf₁
    have hfeed : codec.parser.feed p chunk = { codec.parser.drain () buf₁.contents with
        out := p.out ++ (codec.parser.drain () buf₁.contents).out } := by
      rw [hc₁, hbuf]
      simp [Parser.feed, hp]
    rw [List.foldl_cons, hfeed] at h ⊢
    obtain ⟨events, buf', hreceive, hout, hrest⟩ := ih h hc₂
    refine ⟨(codec.parser.drain () buf₁.contents).out ++ events, buf', ?_, ?_, hrest⟩
    · simp [receive, hbuf₁, hbuf₂, hreceive]
    · rw [hout, List.append_assoc]

theorem drain_nil : codec.parser.drain () [] = ⟨(), [], [], false⟩ := by
  apply Parser.drain_wait
  show codec.verdict [] = .wait
  exact if_pos (by simp [kHeaderLen])

theorem receive_stream (chunks : List (List UInt8))
    (h : (codec.parser.drain () chunks.flatten).halted = false) {input : Buffer}
    (hinput : input.contents = []) :
    ∃ input', codec.receive input chunks =
        .ok ((codec.parser.drain () chunks.flatten).out, input') ∧
      input'.contents = (codec.parser.drain () chunks.flatten).rest := by
  have hfeed : chunks.foldl codec.parser.feed ⟨(), [], [], false⟩ =
      codec.parser.drain () chunks.flatten := by
    rw [← codec.drain_nil, Parser.foldl_feed_drain, List.nil_append]
  rw [← hfeed] at h ⊢
  obtain ⟨events, input', hreceive, hout, hrest⟩ := codec.receive_ok chunks h hinput
  refine ⟨input', ?_, hrest⟩
  rw [hreceive, hout, List.nil_append]

end ProtobufCodecLite
end Muduo
