import Muduo.Codec.RoundTrip

/-!
# One direction of a connection

Two codecs talk over a stream of bytes that keeps their order and nothing else:
frames are sent whole and arrive in pieces. Read as messages, it is a queue. A
pass of the receiver's loop takes the first message or leaves everything as it is,
and behind a frame that is too long nothing is ever taken.
-/

namespace Muduo

open Foundations ProtobufCodecLite

structure Wire where
  /-- sent and not arrived -/
  inFlight : List UInt8
  /-- the input buffer of the receiving connection -/
  input : Buffer

namespace Wire

variable {M : Type} (codec : ProtobufCodecLite M) (w : Wire)

def init : Wire := ⟨[], default⟩

/-- `send` of the codec, into a connection that is up. -/
def send (message : M) : Except Fault Wire := do
  let buf ← codec.fillEmptyBuffer default message
  return { w with inFlight := w.inFlight ++ buf.contents }

def arrive (n : ℕ) : Except Fault Wire := do
  let (_, _, input) ← w.input.readFd (.bytes (w.inFlight.take n))
  return ⟨w.inFlight.drop n, input⟩

/-- A pass of `onMessage`, and the message it hands to the callback. -/
def pass : Except Fault (Option M × Wire) := do
  match ← codec.pass w.input with
  | .again [.messageCallback message] input => return (some message, { w with input := input })
  | .again _ input => return (none, { w with input := input })
  | .stop _ => return (none, w)

/-- What was sent and not yet taken. A message has no more bytes than an `int`
can count. -/
structure Carries (messages : List M) : Prop where
  bytes : w.input.contents ++ w.inFlight = (messages.map codec.frame).flatten
  small : ∀ m ∈ messages, (codec.body m).length < 2 ^ 31

variable {codec w} {messages : List M}

theorem init_carries : init.Carries codec [] :=
  ⟨by simp [init, default], by simp⟩

theorem Carries.send (h : w.Carries codec messages) (hformat : codec.format.Lawful) {m : M}
    (hm : (codec.body m).length < 2 ^ 31) :
    ∃ w', w.send codec m = .ok w' ∧ w'.Carries codec (messages ++ [m]) := by
  have hempty : (default : Buffer).contents = [] := Buffer.contents_ofSize _
  obtain ⟨buf, hbuf, hframe⟩ := codec.fillEmptyBuffer_ok hformat hm hempty (by decide)
  refine ⟨{ w with inFlight := w.inFlight ++ buf.contents }, ?_, ?_, ?_⟩
  · simp [Wire.send, hbuf]
  · simp [hframe, ← List.append_assoc, h.bytes]
  · intro m' hm'
    rcases List.mem_append.mp hm' with hm' | hm'
    · exact h.small m' hm'
    · rw [List.mem_singleton.mp hm']
      exact hm

theorem Carries.arrive (h : w.Carries codec messages) (n : ℕ) :
    ∃ w', w.arrive n = .ok w' ∧ w'.Carries codec messages := by
  obtain ⟨input, hinput, hcontents⟩ := w.input.readFd_spec (w.inFlight.take n)
  refine ⟨⟨w.inFlight.drop n, input⟩, by simp [Wire.arrive, hinput], ?_, h.small⟩
  rw [hcontents, List.append_assoc, List.take_append_drop, h.bytes]

theorem verdict_too_long {m : M} (hlong : kMaxMessageLen < (codec.body m).length)
    (hm : (codec.body m).length < 2 ^ 31) (more : List UInt8) :
    codec.verdict (codec.frame m ++ more) = .halt () 0 [.errorCallback .kInvalidLength] := by
  have hmin : ¬ (codec.frame m ++ more).length < codec.kMinMessageLen + kHeaderLen := by
    rw [List.length_append, codec.length_frame, codec.length_body, kMinMessageLen]
    omega
  rw [verdict, if_neg hmin, codec.frameLen_frame hm, if_pos (.inl (by exact_mod_cast hlong))]

theorem Carries.pass (h : w.Carries codec messages) (hformat : codec.format.Lawful)
    (hraw : codec.rawCb = none) :
    w.pass codec = .ok (none, w) ∨ ∃ m rest w', messages = m :: rest ∧
      w.pass codec = .ok (some m, w') ∧ w'.Carries codec rest := by
  have hagrees := codec.pass_agrees w.input
  cases hv : codec.verdict w.input.contents with
  | wait =>
    rw [hv] at hagrees
    exact .inl (by simp [Wire.pass, show codec.pass w.input = _ from hagrees])
  | halt u n out =>
    rw [hv] at hagrees
    exact .inl (by simp [Wire.pass, show codec.pass w.input = _ from hagrees])
  | next u n out =>
    right
    obtain ⟨-, hn⟩ := codec.verdict_next hv
    have hall : codec.verdict (messages.map codec.frame).flatten = .next u n out := by
      rw [← h.bytes, codec.verdict_append _ _ (by simp [hv]), hv]
    rw [hv] at hagrees
    obtain ⟨input, hpass, hcontents⟩ := hagrees
    cases messages with
    | nil =>
      have hnil : w.input.contents = [] := (List.append_eq_nil_iff.mp h.bytes).1
      have hpos := (codec.verdict_next hv).1
      rw [hnil, List.length_nil] at hn
      omega
    | cons m rest =>
      have hm := h.small m (by simp)
      rw [List.map_cons, List.flatten_cons] at hall
      have hfits : (codec.body m).length ≤ kMaxMessageLen := by
        by_contra hlong
        rw [verdict_too_long (not_le.mp hlong) hm] at hall
        cases hall
      rw [codec.verdict_frame hformat hraw hfits] at hall
      cases hall
      refine ⟨m, rest, ⟨w.inFlight, input⟩, rfl, ?_, ?_, fun m' hm' => h.small m' (by simp [hm'])⟩
      · simp [Wire.pass, hpass]
      · have hbytes := congrArg (List.drop (codec.frame m).length) h.bytes
        rw [List.drop_append_of_le_length hn, List.map_cons, List.flatten_cons,
          List.drop_left] at hbytes
        rw [hcontents]
        exact hbytes

end Wire
end Muduo
