import Muduo.Codec.RoundTrip

/-!
# Framing errors

The bytes of a bad frame stay in the buffer, so that each later call of `onMessage`
comes to the same verdict on them. A stream is therefore received as messages,
followed by one error that is reported again with every chunk, and neither the
messages nor the error depend on the cuts.
-/

namespace Muduo

open Foundations

namespace ProtobufCodecLite

variable {M : Type} (codec : ProtobufCodecLite M)

def Stuck (bytes : List UInt8) (errorCode : ErrorCode) : Prop :=
  codec.verdict bytes = .halt () 0 [.errorCallback errorCode]

def events (messages : List M) (errors : List ErrorCode) : List (CodecEvent M) :=
  messages.map .messageCallback ++ errors.map .errorCallback

theorem events_inj {messages messages' : List M} {errors errors' : List ErrorCode}
    (h : events messages errors = events messages' errors') :
    messages = messages' ∧ errors = errors' := by
  induction messages generalizing messages' with
  | nil =>
    cases messages' with
    | nil =>
      have hinj : Function.Injective (CodecEvent.errorCallback (M := M)) := fun _ _ h => by
        cases h
        rfl
      exact ⟨rfl, List.map_injective_iff.mpr hinj (by simpa [events] using h)⟩
    | cons m messages' => cases errors <;> simp [events] at h
  | cons m messages ih =>
    cases messages' with
    | nil => cases errors' <;> simp [events] at h
    | cons m' messages' =>
      obtain ⟨hm, htail⟩ := List.cons.inj h
      cases hm
      obtain ⟨rfl, rfl⟩ := ih htail
      exact ⟨rfl, rfl⟩

variable {codec}

theorem Stuck.append {bytes : List UInt8} {e : ErrorCode} (h : codec.Stuck bytes e)
    (more : List UInt8) : codec.Stuck (bytes ++ more) e := by
  have hdecided : codec.verdict bytes ≠ .wait := by
    rw [show codec.verdict bytes = _ from h]
    simp
  exact (codec.verdict_append bytes more hdecided).trans h

variable (codec)

theorem verdict_next_out {bytes : List UInt8} {u : Unit} {n : ℕ} {out : List (CodecEvent M)}
    (h : codec.verdict bytes = .next u n out) : ∃ messages, out = events messages [] := by
  unfold verdict at h
  split_ifs at h
  obtain ⟨-, messages, rfl⟩ := codec.judge_next h
  exact ⟨messages, (List.append_nil _).symm⟩

theorem stuck_of_halt {bytes : List UInt8} {u : Unit} {n : ℕ} {out : List (CodecEvent M)}
    (h : codec.verdict bytes = .halt u n out) :
    ∃ e, codec.Stuck bytes e ∧ out = [.errorCallback e] := by
  have hn := codec.verdict_halt h
  subst hn
  have hout : ∃ e, out = [.errorCallback e] := by
    unfold verdict at h
    split_ifs at h
    · cases h
      exact ⟨_, rfl⟩
    · exact (codec.judge_halt h).2
  obtain ⟨e, rfl⟩ := hout
  exact ⟨e, h, rfl⟩

theorem drain_shape (bytes : List UInt8) :
    ∃ messages, (codec.parser.drain () bytes).halted = false ∧
        (codec.parser.drain () bytes).out = events messages [] ∨
      ∃ e, (codec.parser.drain () bytes).halted = true ∧
        (codec.parser.drain () bytes).out = events messages [e] ∧
        codec.Stuck (codec.parser.drain () bytes).rest e := by
  generalize hu : () = u
  induction u, bytes using codec.parser.drain_induction with
  | wait u bytes h =>
    rw [Parser.drain_wait h]
    exact ⟨[], .inl ⟨rfl, rfl⟩⟩
  | halt u bytes u' n out h =>
    rw [Parser.drain_halt h]
    obtain ⟨e, hstuck, rfl⟩ := codec.stuck_of_halt h
    obtain rfl : n = 0 := codec.verdict_halt h
    exact ⟨[], .inr ⟨e, rfl, rfl, hstuck⟩⟩
  | next u bytes u' n out h ih =>
    obtain ⟨first, rfl⟩ := codec.verdict_next_out h
    obtain ⟨messages, hshape⟩ := ih rfl
    rw [Parser.drain_next h]
    refine ⟨first ++ messages, ?_⟩
    rcases hshape with ⟨hwait, hout⟩ | ⟨e, hhalt, hout, hstuck⟩
    · exact .inl ⟨hwait, by simp [hout, events]⟩
    · exact .inr ⟨e, hhalt, by simp [hout, events], hstuck⟩

/-- A stuck buffer stays as it is, and the error is reported once. -/
theorem onMessage_stuck {buf : Buffer} {e : ErrorCode} (h : codec.Stuck buf.contents e) :
    ∃ buf', codec.onMessage buf = .ok (events [] [e], buf') ∧ buf'.contents = buf.contents := by
  have hstep : codec.parser.step () buf.contents = .halt () 0 [.errorCallback e] := h
  obtain ⟨buf', hbuf', hrest⟩ := codec.onMessage_ok buf
  rw [Parser.drain_halt hstep] at hbuf' hrest
  exact ⟨buf', hbuf', hrest⟩

theorem receive_stuck {e : ErrorCode} (chunks : List (List UInt8)) {buf : Buffer}
    (h : codec.Stuck buf.contents e) :
    ∃ buf', codec.receive buf chunks = .ok (events [] (List.replicate chunks.length e), buf') ∧
      codec.Stuck buf'.contents e := by
  induction chunks generalizing buf with
  | nil => exact ⟨buf, rfl, h⟩
  | cons chunk chunks ih =>
    obtain ⟨buf₁, hbuf₁, hc₁, -⟩ := buf.append_spec chunk
    have h₁ : codec.Stuck buf₁.contents e := by
      rw [hc₁]
      exact h.append chunk
    obtain ⟨buf₂, hbuf₂, hc₂⟩ := codec.onMessage_stuck h₁
    rw [← hc₂] at h₁
    obtain ⟨buf', hreceive, h'⟩ := ih h₁
    refine ⟨buf', ?_, h'⟩
    simp [receive, hbuf₁, hbuf₂, hreceive, events, List.replicate_succ]

/-- What is received is what the parser makes of the whole stream, with its error
repeated. -/
theorem receive_shape (chunks : List (List UInt8)) {bytes : List UInt8} {buf : Buffer}
    (hbuf : buf.contents = (codec.parser.drain () bytes).rest)
    (hwait : (codec.parser.drain () bytes).halted = false) :
    ∃ later buf' messages errors, codec.receive buf chunks = .ok (later, buf') ∧
      (codec.parser.drain () bytes).out ++ later = events messages errors ∧
      (codec.parser.drain () (bytes ++ chunks.flatten)).out = events messages errors.head?.toList ∧
      ∀ e ∈ errors.head?, codec.Stuck buf'.contents e := by
  induction chunks generalizing bytes buf with
  | nil =>
    obtain ⟨messages, ⟨-, hout⟩ | ⟨e, hhalt, -⟩⟩ := codec.drain_shape bytes
    · exact ⟨[], buf, messages, [], rfl, by simpa using hout, by simpa using hout, by simp⟩
    · rw [hhalt] at hwait
      cases hwait
  | cons chunk chunks ih =>
    obtain ⟨buf₁, hbuf₁, hc₁, -⟩ := buf.append_spec chunk
    obtain ⟨buf₂, hbuf₂, hc₂⟩ := codec.onMessage_ok buf₁
    have hdrain := Parser.drain_append_of_waiting hwait chunk
    rw [← hbuf, ← hc₁] at hdrain
    have hrest : buf₂.contents = (codec.parser.drain () (bytes ++ chunk)).rest := by
      rw [hc₂, hdrain]
    have hout : (codec.parser.drain () bytes).out ++ (codec.parser.drain () buf₁.contents).out =
        (codec.parser.drain () (bytes ++ chunk)).out := by
      rw [hdrain]
    obtain ⟨messages, ⟨hwait', -⟩ | ⟨e, hhalt, hevents, hstuck⟩⟩ :=
      codec.drain_shape (bytes ++ chunk)
    · obtain ⟨later, buf', messages, errors, hreceive, hlater, hall, hstuck⟩ := ih hrest hwait'
      refine ⟨(codec.parser.drain () buf₁.contents).out ++ later, buf', messages, errors, ?_, ?_,
        ?_,
        hstuck⟩
      · simp [receive, hbuf₁, hbuf₂, hreceive]
      · rw [← List.append_assoc, hout, hlater]
      · rw [List.flatten_cons, ← List.append_assoc, hall]
    · rw [← hrest] at hstuck
      obtain ⟨buf', hreceive, hstuck'⟩ := codec.receive_stuck chunks hstuck
      refine ⟨(codec.parser.drain () buf₁.contents).out ++
          events [] (List.replicate chunks.length e), buf', messages,
        e :: List.replicate chunks.length e, ?_, ?_, ?_, ?_⟩
      · simp [receive, hbuf₁, hbuf₂, hreceive]
      · rw [← List.append_assoc, hout, hevents]
        simp [events]
      · rw [List.flatten_cons, ← List.append_assoc, Parser.drain_append_of_halted hhalt]
        exact hevents
      · rintro e' he'
        cases he'
        exact hstuck'

/-- Cut in any two ways, a stream gives the same messages and the same first error;
behind an error nothing but errors is reported, whatever arrives. -/
theorem errors_are_sticky (chunks chunks' : List (List UInt8)) {input input' : Buffer}
    (hinput : input.contents = []) (hinput' : input'.contents = [])
    (hsame : chunks.flatten = chunks'.flatten) :
    ∃ messages errors errors' buf buf',
      codec.receive input chunks = .ok (events messages errors, buf) ∧
      codec.receive input' chunks' = .ok (events messages errors', buf') ∧
      errors.head? = errors'.head? ∧
      (errors ≠ [] → ∀ more, ∃ later buf'',
        codec.receive buf more = .ok (events [] later, buf'')) := by
  have hnil := codec.drain_nil
  have hempty : ([] : List UInt8) = (codec.parser.drain () []).rest := by rw [hnil]
  have hwait : (codec.parser.drain () []).halted = false := by rw [hnil]
  obtain ⟨later, buf, messages, errors, hreceive, hlater, hall, hstuck⟩ :=
    codec.receive_shape chunks (hinput.trans hempty) hwait
  obtain ⟨later', buf', messages', errors', hreceive', hlater', hall', -⟩ :=
    codec.receive_shape chunks' (hinput'.trans hempty) hwait
  rw [hnil, List.nil_append] at hlater hlater'
  rw [hlater] at hreceive
  rw [hlater'] at hreceive'
  rw [hsame, hall'] at hall
  obtain ⟨rfl, herrors⟩ := events_inj hall
  refine ⟨messages', errors, errors', buf, buf', hreceive, hreceive', ?_, ?_⟩
  · have := congrArg List.head? herrors
    simpa using this.symm
  · intro hne more
    obtain ⟨e, tail, rfl⟩ := List.exists_cons_of_ne_nil hne
    obtain ⟨buf'', hmore, -⟩ := codec.receive_stuck more (hstuck e rfl)
    exact ⟨_, buf'', hmore⟩

/-- An empty message and a negative length, in one piece and cut inside both frames. -/
theorem errors_are_sticky_plain :
    ∃ messages errors errors' buf buf',
      plainCodec.receive default
          [[0, 0, 0, 8, 82, 80, 67, 48, 2, 242, 1, 22, 255, 255, 255, 255, 0, 0, 0, 0, 0, 0, 0,
            0]] =
        .ok (events messages errors, buf) ∧
      plainCodec.receive (Buffer.ofSize 0)
          [[0, 0, 0, 8, 82, 80, 67], [48, 2, 242, 1, 22, 255, 255, 255, 255, 0, 0, 0],
            [0, 0, 0, 0, 0]] =
        .ok (events messages errors', buf') ∧
      errors.head? = errors'.head? ∧
      (errors ≠ [] → ∀ more, ∃ later buf'',
        plainCodec.receive buf more = .ok (events [] later, buf'')) :=
  errors_are_sticky plainCodec _ _ (Buffer.contents_ofSize _) (Buffer.contents_ofSize _) (by decide)

end ProtobufCodecLite
end Muduo
