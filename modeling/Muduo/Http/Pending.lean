import Muduo.Http.HttpServer

/-!
# The bytes that are still to be parsed

The context may have taken some lines of a request out of the buffer already.
A connection resumes the pending bytes when it goes on as a fresh context goes
on with all of them. The time of arrival is kept with a request but decides
nothing, so the two are compared without it.
-/

namespace Muduo

open Foundations

namespace HttpRequest

def arrivedAt (t : Timestamp) (r : HttpRequest) : HttpRequest := { r with receiveTime := t }

variable (t : Timestamp) (r : HttpRequest)

theorem setTarget_arrivedAt (target : Bytes) :
    (r.arrivedAt t).setTarget target = (r.setTarget target).arrivedAt t := by
  dsimp only [setTarget]
  split_ifs <;> rfl

theorem setVersionText_arrivedAt (text : Bytes) :
    (r.arrivedAt t).setVersionText text = Prod.map id (arrivedAt t) (r.setVersionText text) := by
  unfold setVersionText
  split_ifs <;> rfl

theorem setTargetAndVersion_arrivedAt (text : Bytes) :
    (r.arrivedAt t).setTargetAndVersion text =
      Prod.map id (arrivedAt t) (r.setTargetAndVersion text) := by
  dsimp only [setTargetAndVersion]
  rw [setTarget_arrivedAt, setVersionText_arrivedAt]
  split_ifs <;> rfl

theorem setMethod_arrivedAt (m : Bytes) :
    (r.arrivedAt t).setMethod m = (r.setMethod m).map (Prod.map id (arrivedAt t)) := by
  unfold setMethod
  by_cases hm : r.method = .kInvalid
  · rw [assertThat_pos hm, assertThat_pos (show (r.arrivedAt t).method = .kInvalid from hm)]
    rfl
  · rw [assertThat_neg hm, assertThat_neg (show ¬ (r.arrivedAt t).method = .kInvalid from hm)]
    rfl

theorem processRequestLine_arrivedAt (line : Bytes) :
    (r.arrivedAt t).processRequestLine line =
      (r.processRequestLine line).map (Prod.map id (arrivedAt t)) := by
  dsimp only [processRequestLine]
  rw [setMethod_arrivedAt]
  split_ifs
  · rcases r.setMethod (line.take (line.idxOf 32)) with e | ⟨known, r'⟩
    · rfl
    · cases known with
      | true => exact congrArg Except.ok (setTargetAndVersion_arrivedAt t r' _)
      | false => rfl
  · rfl

end HttpRequest

namespace HttpContext

def untimed (c : HttpContext) : HttpContext :=
  { c with request := c.request.arrivedAt Timestamp.invalid }

@[simp]
theorem untimed_state (c : HttpContext) : c.untimed.state = c.state := rfl

def untimedOutcome (s : Outcome) : Outcome := (s.1.untimed, s.2)

theorem judgeRequestLine_untimed (c : HttpContext) (t : Timestamp) (line : Bytes) :
    c.untimed.judgeRequestLine Timestamp.invalid line =
      (c.judgeRequestLine t line).map untimedOutcome := by
  unfold judgeRequestLine untimed
  simp only [HttpRequest.processRequestLine_arrivedAt]
  rcases c.request.processRequestLine line with e | ⟨ok, request⟩
  · rfl
  · cases ok <;> rfl

theorem judgeHeader_untimed (c : HttpContext) (line : Bytes) :
    c.untimed.judgeHeader line = (c.judgeHeader line).map untimedOutcome := by
  unfold judgeHeader
  split_ifs <;> rfl

theorem verdict_untimed (t : Timestamp) (s : Outcome) (bytes : Bytes) :
    verdict Timestamp.invalid (untimedOutcome s) bytes =
      (verdict t s bytes).map untimedOutcome := by
  rcases verdict_cases s bytes with ⟨n, hs, hn⟩ | ⟨n, hs, hn⟩ | ⟨hs, hn⟩ | hs
  · rw [verdict_requestLine hs hn, ← judgeRequestLine_untimed]
    exact verdict_requestLine hs hn
  · rw [verdict_header hs hn, ← judgeHeader_untimed]
    exact verdict_header hs hn
  · rw [verdict_wait hs hn]
    exact verdict_wait hs hn
  · rw [verdict_stuck hs]
    exact verdict_stuck hs

theorem drain_untimed (t : Timestamp) (c : HttpContext) (bytes : Bytes) :
    (parser Timestamp.invalid).drain (c.untimed, .ok true) bytes =
      ((parser t).drain (c, .ok true) bytes).map untimedOutcome := by
  have h : ∀ s xs, (parser Timestamp.invalid).step (untimedOutcome s) xs =
      ((parser t).step s xs).map untimedOutcome := verdict_untimed t
  exact Parser.drain_map h (c, .ok true) bytes

def reading (bytes : Bytes) : Progress Outcome UInt8 Empty :=
  (parser Timestamp.invalid).drain (init, .ok true) bytes

theorem reading_settled (bytes : Bytes) : Settled (reading bytes) :=
  settled_drain Timestamp.invalid init bytes

theorem reading_returns (bytes : Bytes) : ∃ ok, (reading bytes).state.2 = .ok ok :=
  drain_returns Timestamp.invalid init_ready bytes

end HttpContext

namespace HttpSession

open HttpContext

variable {σ : Type}

/-- The connection goes on as a fresh one does with the pending bytes. -/
def Resumes (s : HttpSession σ) (pending : Bytes) : Prop :=
  ∀ more, (parser Timestamp.invalid).drain (s.context.untimed, .ok true)
    (s.input.contents ++ more) = reading (pending ++ more)

theorem resumes_fresh {s : HttpSession σ} {pending : Bytes} (hc : s.context.untimed = init)
    (hinput : s.input.contents = pending) : s.Resumes pending := by
  intro more
  rw [hc, hinput]
  rfl

theorem resumes_waiting {s : HttpSession σ} {pending : Bytes}
    (hwait : (reading pending).halted = false)
    (hs : (reading pending).state = (s.context.untimed, .ok true))
    (hinput : s.input.contents = (reading pending).rest) : s.Resumes pending := by
  intro more
  have hout : (reading pending).out = [] := Subsingleton.elim _ _
  have := Parser.drain_append_of_waiting hwait more
  rw [reading, this, ← reading, hs, hinput, hout]
  rfl

/-- One call of the parser goes as far as a fresh context does with everything
that is pending. -/
theorem parse_pending {s : HttpSession σ} {pending chunk : Bytes} {input : Buffer}
    (hs : s.Resumes pending) (hinput : input.contents = s.input.contents ++ chunk)
    (t : Timestamp) :
    ∃ ok c input', s.context.parseRequest input t = .ok (ok, c, input') ∧
      (reading (pending ++ chunk)).state = (c.untimed, .ok ok) ∧
      (reading (pending ++ chunk)).rest = input'.contents := by
  have hends := parseRequest_ends s.context input t
  have hreading : reading (pending ++ chunk) =
      ((parser t).drain (s.context, .ok true) input.contents).map untimedOutcome := by
    rw [← hs chunk, ← hinput, drain_untimed t]
  obtain ⟨ok, hok⟩ := reading_returns (pending ++ chunk)
  rw [hreading] at hok ⊢
  have hok : ((parser t).drain (s.context, .ok true) input.contents).state.2 = .ok ok := hok
  simp only [Ends, hok] at hends
  obtain ⟨input', hparse, hrest⟩ := hends
  exact ⟨ok, _, input', hparse, Prod.ext rfl hok, hrest.symm⟩

end HttpSession

namespace HttpServer

open HttpContext

variable {σ : Type} (callback : HttpCallback σ) {s : HttpSession σ} {pending : Bytes}

theorem gotAll_iff_halted {bytes : Bytes} {c : HttpContext}
    (hstate : (reading bytes).state = (c.untimed, .ok true)) :
    c.gotAll = (reading bytes).halted := by
  have hsettled := reading_settled bytes
  unfold Settled at hsettled
  rw [hstate] at hsettled
  cases hp : (reading bytes).halted with
  | true => simpa [hp, gotAll] using hsettled
  | false => simpa [hp, gotAll] using hsettled

theorem deliver_waits (hs : s.Resumes pending) (piece : Bytes × Timestamp)
    (hwait : (reading (pending ++ piece.1)).halted = false) :
    ∃ s', deliver callback s piece = .ok s' ∧ s'.user = s.user ∧ s'.events = s.events ∧
      s'.Resumes (pending ++ piece.1) := by
  obtain ⟨input, happend, hinput, -⟩ := s.input.append_spec piece.1
  obtain ⟨ok, c, input', hparse, hstate, hrest⟩ := HttpSession.parse_pending hs hinput piece.2
  have hsettled := reading_settled (pending ++ piece.1)
  simp only [Settled, hwait, Bool.false_eq_true, if_false, hstate] at hsettled
  obtain ⟨hok, -⟩ := hsettled
  cases hok
  have hgot : c.gotAll = false := (gotAll_iff_halted hstate).trans hwait
  refine ⟨{ s with context := c, input := input' }, ?_, rfl, rfl, ?_⟩
  · simp [deliver, onMessage, happend, hparse, hgot]
  · exact HttpSession.resumes_waiting hwait hstate hrest.symm

/-- A request is complete: it is answered, and the bytes behind it are pending. -/
theorem deliver_answers (hs : s.Resumes pending) (piece : Bytes × Timestamp)
    (hhalt : (reading (pending ++ piece.1)).halted = true)
    (hok : (reading (pending ++ piece.1)).state.2 = .ok true) :
    ∃ s' t, deliver callback s piece = .ok s' ∧
      (s'.user, s'.events) = Prod.map id (s.events ++ ·) (answer callback s.user
        ((reading (pending ++ piece.1)).state.1.request.arrivedAt t)) ∧
      s'.Resumes (reading (pending ++ piece.1)).rest := by
  obtain ⟨input, happend, hinput, -⟩ := s.input.append_spec piece.1
  obtain ⟨ok, c, input', hparse, hstate, hrest⟩ := HttpSession.parse_pending hs hinput piece.2
  rw [hstate] at hok
  cases hok
  have hgot : c.gotAll = true := (gotAll_iff_halted hstate).trans hhalt
  let a := answer callback s.user c.request
  refine ⟨⟨a.1, c.reset, input', s.events ++ a.2⟩, c.request.receiveTime, ?_, ?_, ?_⟩
  · simp [deliver, onMessage, happend, hparse, hgot, onRequest_ok, a]
  · rw [hstate]
    rfl
  · exact HttpSession.resumes_fresh rfl hrest.symm

/-- The request line is bad: the client is told so, and the line stays. -/
theorem deliver_rejects (hs : s.Resumes pending) (piece : Bytes × Timestamp)
    (hok : (reading (pending ++ piece.1)).state.2 = .ok false)
    (hgot : (reading (pending ++ piece.1)).state.1.gotAll = false) :
    ∃ s', deliver callback s piece = .ok s' ∧
      s'.context.untimed = (reading (pending ++ piece.1)).state.1 ∧
      s'.input.contents = (reading (pending ++ piece.1)).rest := by
  obtain ⟨input, happend, hinput, -⟩ := s.input.append_spec piece.1
  obtain ⟨ok, c, input', hparse, hstate, hrest⟩ := HttpSession.parse_pending hs hinput piece.2
  rw [hstate] at hok hgot
  cases hok
  have hgot : c.gotAll = false := hgot
  refine ⟨⟨s.user, c, input', s.events ++ [.send badRequest, .shutdown]⟩, ?_, ?_, hrest.symm⟩
  · simp [deliver, onMessage, happend, hparse, hgot]
  · rw [hstate]

theorem start_resumes (user : σ) : (start user).Resumes [] :=
  HttpSession.resumes_fresh rfl (Buffer.contents_ofSize _)

end HttpServer
end Muduo
