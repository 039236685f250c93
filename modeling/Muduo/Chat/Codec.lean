import Muduo.Base.Text
import Muduo.Buffer.Integers
import Muduo.Foundations.Incremental

/-!
# Messages with a length in front

`LengthHeaderCodec` of the chat puts the length of a message in front of it, as an `int32_t` in
network byte order. The server and its clients read their streams with the same loop and differ in
what they do with a message.
-/

namespace Muduo
namespace Chat

open Foundations

def kHeaderLen : ℕ := 4

/-- What `send` gives to the connection. -/
def encode (message : Bytes) : Bytes :=
  hostToNetwork 4 (BitVec.ofNat 32 message.length) ++ message

def frameLen (buf : Bytes) : ℤ := (networkToHost 4 (buf.take kHeaderLen)).toInt

section Loop

variable {α : Type} (callback : α → Bytes → α) (shutdown : α → α)

/-- The loop of `onMessage`, with what the callback and `conn->shutdown()` do. -/
def messageLoop : ℕ → α → Bytes → Except Fault (α × Bytes)
  | 0, _, _ => .error .endless
  | fuel + 1, a, buf =>
    if kHeaderLen ≤ buf.length then
      let len := frameLen buf
      if len > 65536 ∨ len < 0 then .ok (shutdown a, buf)
      else if len.toNat + kHeaderLen ≤ buf.length then
        let buf := buf.drop kHeaderLen
        messageLoop fuel (callback a (buf.take len.toNat)) (buf.drop len.toNat)
      else .ok (a, buf)
    else .ok (a, buf)

/-- `data` arrives behind what is in the buffer. -/
def onMessage (a : α) (buf data : Bytes) : Except Fault (α × Bytes) :=
  messageLoop callback shutdown ((buf ++ data).length + 1) a (buf ++ data)

end Loop

def verdict (buf : Bytes) : Verdict Unit Bytes :=
  if buf.length < kHeaderLen then .wait
  else if frameLen buf > 65536 ∨ frameLen buf < 0 then .halt () 0 []
  else if buf.length < (frameLen buf).toNat + kHeaderLen then .wait
  else .next () (kHeaderLen + (frameLen buf).toNat)
    [(buf.drop kHeaderLen).take (frameLen buf).toNat]

theorem frameLen_append {buf : Bytes} (h : kHeaderLen ≤ buf.length) (more : Bytes) :
    frameLen (buf ++ more) = frameLen buf := by
  rw [frameLen, frameLen, List.take_append_of_le_length h]

theorem verdict_append {buf : Bytes} (h : verdict buf ≠ .wait) (more : Bytes) :
    verdict (buf ++ more) = verdict buf := by
  have hlonger : (buf ++ more).length = buf.length + more.length := List.length_append
  unfold verdict at h ⊢
  by_cases hheader : buf.length < kHeaderLen
  · exact absurd (if_pos hheader) h
  · rw [if_neg hheader] at h ⊢
    rw [if_neg (by omega), frameLen_append (not_lt.mp hheader)]
    by_cases hbad : frameLen buf > 65536 ∨ frameLen buf < 0
    · rw [if_pos hbad, if_pos hbad]
    · rw [if_neg hbad] at h ⊢
      by_cases hrest : buf.length < (frameLen buf).toNat + kHeaderLen
      · exact absurd (if_pos hrest) h
      · rw [if_neg hbad, if_neg hrest, if_neg (by omega),
          List.drop_append_of_le_length (not_lt.mp hheader), List.take_append_of_le_length]
        rw [List.length_drop]
        omega

/-- The messages of a stream. A length that is not possible ends it. -/
def messages : Parser Unit UInt8 Bytes where
  step _ buf := verdict buf
  extends_input _ _ ys h := verdict_append h ys
  next_takes _ buf _ n out h := by
    unfold verdict at h
    split_ifs at h
    cases h
    constructor
    · simp [kHeaderLen]
    · omega
  halt_takes _ buf _ n out h := by
    unfold verdict at h
    split_ifs at h
    cases h
    exact Nat.zero_le _

section Stream

variable {α : Type} (callback : α → Bytes → α) (shutdown : α → α)

theorem messageLoop_eq {fuel : ℕ} {buf : Bytes} (hfuel : buf.length < fuel) (a : α) :
    messageLoop callback shutdown fuel a buf =
      .ok (if (messages.drain () buf).halted then
          shutdown ((messages.drain () buf).out.foldl callback a)
        else (messages.drain () buf).out.foldl callback a, (messages.drain () buf).rest) := by
  refine Parser.drain_loop (P := messages) (s := ())
    (fun fuel a _ buf => messageLoop callback shutdown fuel a buf) callback
    (fun a _ rest halted => .ok (if halted then shutdown a else a, rest)) (fun _ => True)
    ?_ ?_ ?_ hfuel (fun _ _ => trivial) a
  · intro fuel a _ buf hstep
    change verdict buf = .wait at hstep
    unfold verdict at hstep
    split_ifs at hstep with hheader hbad hrest
    · simp [messageLoop, hheader]
    · simp only [messageLoop, not_lt.mp hheader, if_true, if_neg hbad, if_neg (not_le.mpr hrest)]
      rfl
  · intro fuel a _ buf s' n out hstep _
    change verdict buf = .halt s' n out at hstep
    unfold verdict at hstep
    split_ifs at hstep with hheader hbad
    cases hstep
    simp only [messageLoop, not_lt.mp hheader, if_true, if_pos hbad]
    rfl
  · intro fuel a _ buf s' n out hstep _
    change verdict buf = .next s' n out at hstep
    unfold verdict at hstep
    split_ifs at hstep with hheader hbad hrest
    cases hstep
    simp only [messageLoop, not_lt.mp hheader, if_true, if_neg hbad, if_pos (not_lt.mp hrest),
      List.drop_drop]
    rfl

theorem onMessage_eq (a : α) (buf data : Bytes) :
    onMessage callback shutdown a buf data =
      .ok (if (messages.drain () (buf ++ data)).halted then
          shutdown ((messages.drain () (buf ++ data)).out.foldl callback a)
        else (messages.drain () (buf ++ data)).out.foldl callback a,
        (messages.drain () (buf ++ data)).rest) :=
  messageLoop_eq callback shutdown (Nat.lt_succ_self _) a

end Stream

theorem verdict_of_halted {data : Bytes} (h : (messages.drain () data).halted = true) :
    verdict (messages.drain () data).rest = .halt () 0 [] := by
  generalize hs : () = s at h ⊢
  induction s, data using messages.drain_induction with
  | wait s buf hstep => simp [Parser.drain_wait hstep] at h
  | halt s buf s' n out hstep =>
    rw [Parser.drain_halt hstep]
    have hverdict : verdict buf = .halt s' n out := hstep
    unfold verdict at hverdict
    split_ifs at hverdict with hheader hbad
    cases hverdict
    exact hstep
  | next s buf s' n out hstep ih =>
    rw [Parser.drain_next hstep] at h ⊢
    exact ih rfl h

theorem length_le_of_mem {data message : Bytes} (h : message ∈ (messages.drain () data).out) :
    message.length ≤ 65536 := by
  generalize hs : () = s at h
  induction s, data using messages.drain_induction with
  | wait s buf hstep => simp [Parser.drain_wait hstep] at h
  | halt s buf s' n out hstep =>
    rw [Parser.drain_halt hstep] at h
    have hverdict : verdict buf = .halt s' n out := hstep
    unfold verdict at hverdict
    split_ifs at hverdict
    cases hverdict
    cases h
  | next s buf s' n out hstep ih =>
    rw [Parser.drain_next hstep] at h
    rcases List.mem_append.mp h with hmem | hmem
    · have hverdict : verdict buf = .next s' n out := hstep
      unfold verdict at hverdict
      split_ifs at hverdict with hheader hbad hrest
      cases hverdict
      rw [List.mem_singleton.mp hmem, List.length_take]
      omega
    · exact ih rfl hmem

theorem verdict_encode {message : Bytes} (h : message.length ≤ 65536) (rest : Bytes) :
    verdict (encode message ++ rest) = .next () (encode message).length [message] := by
  have hheader : (encode message ++ rest).take kHeaderLen =
      hostToNetwork 4 (BitVec.ofNat 32 message.length) := by
    rw [encode, List.append_assoc, List.take_append_of_le_length (by simp [kHeaderLen])]
    exact List.take_of_length_le (by simp [kHeaderLen])
  have hlen : frameLen (encode message ++ rest) = message.length := by
    rw [frameLen, hheader, networkToHost_hostToNetwork, BitVec.toInt_eq_toNat_of_lt]
    · rw [BitVec.toNat_ofNat, Nat.mod_eq_of_lt (by omega)]
    · rw [BitVec.toNat_ofNat, Nat.mod_eq_of_lt (by omega)]
      omega
  have hlength : (encode message).length = kHeaderLen + message.length := by
    simp [encode, kHeaderLen]
  have hbody : (encode message ++ rest).drop kHeaderLen = message ++ rest := by
    rw [encode, List.append_assoc]
    exact List.drop_left' (by simp [kHeaderLen])
  rw [verdict, hlen, hbody, List.length_append, hlength, if_neg (by omega), if_neg (by omega),
    if_neg (by omega), Int.toNat_natCast, List.take_left']
  rfl

theorem drain_encode (ms : List Bytes) (h : ∀ m ∈ ms, m.length ≤ 65536) :
    messages.drain () (ms.flatMap encode) = ⟨(), [], ms, false⟩ := by
  induction ms with
  | nil => exact Parser.drain_wait rfl
  | cons m ms ih =>
    obtain ⟨hm, hms⟩ := List.forall_mem_cons.mp h
    rw [List.flatMap_cons, Parser.drain_next (verdict_encode hm _), List.drop_left, ih hms]
    rfl

end Chat
end Muduo
