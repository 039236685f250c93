import Muduo.Foundations.Incremental
import Muduo.Http.HttpContext

/-!
# Requests may be cut anywhere

A pass of `parseRequest` looks for the end of a line and decides on that line
alone, so the parser is incremental: a request that arrives in pieces, cut at
any byte, is parsed like the whole one.
-/

namespace Muduo

open Foundations

namespace HttpContext

/-- The context, and what `parseRequest` returns or how it faults. -/
abbrev Outcome := HttpContext × Except Fault Bool

def judgeRequestLine (c : HttpContext) (receiveTime : Timestamp) (line : Bytes) :
    Verdict Outcome Empty :=
  match c.request.processRequestLine line with
  | .error e => .halt (c, .error e) 0 []
  | .ok (true, request) =>
    .next (⟨.kExpectHeaders, { request with receiveTime := receiveTime }⟩, .ok true)
      (line.length + 2) []
  | .ok (false, request) => .halt ({ c with request := request }, .ok false) 0 []

def judgeHeader (c : HttpContext) (line : Bytes) : Verdict Outcome Empty :=
  if line.idxOf 58 ≠ line.length then
    .next ({ c with request := c.request.addHeader line (line.idxOf 58) }, .ok true)
      (line.length + 2) []
  else .halt ({ c with state := .kGotAll }, .ok true) (line.length + 2) []

/-- One pass of the loop, as a function of the readable bytes. -/
def verdict (receiveTime : Timestamp) (s : Outcome) (bytes : Bytes) : Verdict Outcome Empty :=
  match s.1.state, findPair 13 10 bytes with
  | .kExpectRequestLine, some n => s.1.judgeRequestLine receiveTime (bytes.take n)
  | .kExpectRequestLine, none => .wait
  | .kExpectHeaders, some n => s.1.judgeHeader (bytes.take n)
  | .kExpectHeaders, none => .wait
  | _, _ => .halt (s.1, .error .endless) 0 []

section Parser

variable {receiveTime : Timestamp} {c : HttpContext} {s s' : Outcome} {bytes line : Bytes}
  {n k : ℕ} {out : List Empty}

/-- A request line is taken, or left where it is with the result of the parser. -/
theorem judgeRequestLine_cases (c : HttpContext) (receiveTime : Timestamp) (line : Bytes) :
    (∃ request, c.judgeRequestLine receiveTime line =
      .next (⟨.kExpectHeaders, request⟩, .ok true) (line.length + 2) []) ∨
    ∃ request result, c.judgeRequestLine receiveTime line =
        .halt ({ c with request := request }, result) 0 [] ∧ result ≠ .ok true ∧
      ∀ e, result = .error e → c.request.processRequestLine line = .error e := by
  unfold judgeRequestLine
  rcases hp : c.request.processRequestLine line with e | ⟨ok, request⟩
  · exact .inr ⟨c.request, .error e, rfl, by simp, fun e' he => congrArg _ (Except.error.inj he)⟩
  · cases ok with
    | true => exact .inl ⟨_, rfl⟩
    | false => exact .inr ⟨request, .ok false, rfl, by simp, by simp⟩

theorem judgeRequestLine_next (h : c.judgeRequestLine receiveTime line = .next s' k out) :
    k = line.length + 2 ∧ s'.1.state = .kExpectHeaders ∧ s'.2 = .ok true := by
  rcases judgeRequestLine_cases c receiveTime line with ⟨request, hnext⟩ |
    ⟨request, result, hhalt, -⟩
  · cases hnext.symm.trans h
    exact ⟨rfl, rfl, rfl⟩
  · cases hhalt.symm.trans h

theorem judgeRequestLine_halt (h : c.judgeRequestLine receiveTime line = .halt s' k out) :
    k = 0 ∧ s'.1.state = c.state ∧ s'.2 ≠ .ok true ∧
      ∀ e, s'.2 = .error e → c.request.processRequestLine line = .error e := by
  rcases judgeRequestLine_cases c receiveTime line with ⟨request, hnext⟩ |
    ⟨request, result, hhalt, hresult⟩
  · cases hnext.symm.trans h
  · cases hhalt.symm.trans h
    exact ⟨rfl, rfl, hresult⟩

theorem judgeHeader_next (h : c.judgeHeader line = .next s' k out) :
    k = line.length + 2 ∧ s'.1.state = c.state ∧ s'.2 = .ok true := by
  unfold judgeHeader at h
  split_ifs at h
  cases h
  exact ⟨rfl, rfl, rfl⟩

theorem judgeHeader_halt (h : c.judgeHeader line = .halt s' k out) :
    k = line.length + 2 ∧ s'.1.state = .kGotAll ∧ s'.2 = .ok true := by
  unfold judgeHeader at h
  split_ifs at h
  cases h
  exact ⟨rfl, rfl, rfl⟩

theorem verdict_requestLine (hs : s.1.state = .kExpectRequestLine)
    (hn : findPair 13 10 bytes = some n) :
    verdict receiveTime s bytes = s.1.judgeRequestLine receiveTime (bytes.take n) := by
  simp only [verdict, hs, hn]

theorem verdict_header (hs : s.1.state = .kExpectHeaders) (hn : findPair 13 10 bytes = some n) :
    verdict receiveTime s bytes = s.1.judgeHeader (bytes.take n) := by
  simp only [verdict, hs, hn]

theorem verdict_wait (hs : s.1.state = .kExpectRequestLine ∨ s.1.state = .kExpectHeaders)
    (hn : findPair 13 10 bytes = none) : verdict receiveTime s bytes = .wait := by
  rcases hs with hs | hs <;> simp only [verdict, hs, hn]

theorem verdict_stuck (hs : s.1.state = .kExpectBody ∨ s.1.state = .kGotAll) :
    verdict receiveTime s bytes = .halt (s.1, .error .endless) 0 [] := by
  rcases hs with hs | hs <;> cases hn : findPair 13 10 bytes <;> simp only [verdict, hs, hn]

theorem verdict_cases (s : Outcome) (bytes : Bytes) :
    (∃ n, s.1.state = .kExpectRequestLine ∧ findPair 13 10 bytes = some n) ∨
      (∃ n, s.1.state = .kExpectHeaders ∧ findPair 13 10 bytes = some n) ∨
      ((s.1.state = .kExpectRequestLine ∨ s.1.state = .kExpectHeaders) ∧
        findPair 13 10 bytes = none) ∨
      (s.1.state = .kExpectBody ∨ s.1.state = .kGotAll) := by
  cases s.1.state <;> cases findPair 13 10 bytes <;> simp

theorem length_line (hn : findPair 13 10 bytes = some n) : (bytes.take n).length = n := by
  have := findPair_lt hn
  rw [List.length_take]
  omega

theorem take_line_append (hn : findPair 13 10 bytes = some n) (more : Bytes) :
    (bytes ++ more).take n = bytes.take n := by
  have := findPair_lt hn
  exact List.take_append_of_le_length (by omega)

theorem verdict_append (s : Outcome) (bytes more : Bytes)
    (h : verdict receiveTime s bytes ≠ .wait) :
    verdict receiveTime s (bytes ++ more) = verdict receiveTime s bytes := by
  rcases verdict_cases s bytes with ⟨n, hs, hn⟩ | ⟨n, hs, hn⟩ | ⟨hs, hn⟩ | hs
  · rw [verdict_requestLine hs hn, verdict_requestLine hs (findPair_append hn more),
      take_line_append hn]
  · rw [verdict_header hs hn, verdict_header hs (findPair_append hn more), take_line_append hn]
  · exact absurd (verdict_wait hs hn) h
  · rw [verdict_stuck hs, verdict_stuck hs]

theorem verdict_next (h : verdict receiveTime s bytes = .next s' k out) :
    0 < k ∧ k ≤ bytes.length := by
  rcases verdict_cases s bytes with ⟨n, hs, hn⟩ | ⟨n, hs, hn⟩ | ⟨hs, hn⟩ | hs
  · rw [verdict_requestLine hs hn] at h
    rw [(judgeRequestLine_next h).1, length_line hn]
    exact ⟨Nat.succ_pos _, findPair_lt hn⟩
  · rw [verdict_header hs hn] at h
    rw [(judgeHeader_next h).1, length_line hn]
    exact ⟨Nat.succ_pos _, findPair_lt hn⟩
  · cases (verdict_wait hs hn).symm.trans h
  · cases (verdict_stuck hs).symm.trans h

theorem verdict_halt (h : verdict receiveTime s bytes = .halt s' k out) : k ≤ bytes.length := by
  rcases verdict_cases s bytes with ⟨n, hs, hn⟩ | ⟨n, hs, hn⟩ | ⟨hs, hn⟩ | hs
  · rw [verdict_requestLine hs hn] at h
    rw [(judgeRequestLine_halt h).1]
    exact Nat.zero_le _
  · rw [verdict_header hs hn] at h
    rw [(judgeHeader_halt h).1, length_line hn]
    exact findPair_lt hn
  · cases (verdict_wait hs hn).symm.trans h
  · cases (verdict_stuck hs).symm.trans h
    exact Nat.zero_le _

end Parser

def parser (receiveTime : Timestamp) : Parser Outcome UInt8 Empty where
  step := verdict receiveTime
  extends_input := verdict_append
  next_takes _ _ _ _ _ h := verdict_next h
  halt_takes _ _ _ _ _ h := verdict_halt h

def Ends (p : Progress Outcome UInt8 Empty)
    (r : Except Fault (Bool × HttpContext × Buffer)) : Prop :=
  match p.state.2 with
  | .error e => r = .error e
  | .ok ok => ∃ buf, r = .ok (ok, p.state.1, buf) ∧ buf.contents = p.rest

section Loop

variable {receiveTime : Timestamp} {c : HttpContext} {buf : Buffer} {n : ℕ}

theorem findCRLF_some (hn : findPair 13 10 buf.contents = some n) :
    buf.findCRLF = some (buf.peek + n) ∧ lineBefore buf (buf.peek + n) = buf.contents.take n ∧
      ∃ buf', buf.retrieveUntil (buf.peek + n + 2) = .ok buf' ∧
        buf'.contents = buf.contents.drop (n + 2) := by
  have hle := findPair_lt hn
  rw [Buffer.length_contents] at hle
  obtain ⟨buf', hbuf', hcontents⟩ := Buffer.retrieveUntil_spec hle
  refine ⟨by simp [Buffer.findCRLF, hn], by simp [lineBefore], buf', ?_, hcontents⟩
  rwa [Nat.add_assoc]

theorem findCRLF_none (hn : findPair 13 10 buf.contents = none) : buf.findCRLF = none := by
  simp [Buffer.findCRLF, hn]

def Agrees (v : Verdict Outcome Empty) (c : HttpContext) (buf : Buffer) (r : Except Fault Pass) :
    Prop :=
  match v with
  | .wait => r = .ok (.stop true c buf)
  | .next s n _ => ∃ buf', r = .ok (.again s.1 buf') ∧ buf'.contents = buf.contents.drop n
  | .halt s n _ =>
    match s.2 with
    | .error e => r = .error e
    | .ok ok => ∃ buf', r = .ok (.stop ok s.1 buf') ∧ buf'.contents = buf.contents.drop n

theorem passRequestLine_agrees (hn : findPair 13 10 buf.contents = some n) :
    Agrees (c.judgeRequestLine receiveTime (buf.contents.take n)) c buf
      (c.passRequestLine buf receiveTime) := by
  obtain ⟨hfind, hline, buf', hbuf', hcontents⟩ := findCRLF_some hn
  unfold judgeRequestLine passRequestLine
  rw [hfind]
  simp only [hline, length_line hn]
  rcases c.request.processRequestLine (buf.contents.take n) with e | ⟨ok, request⟩
  · rfl
  · cases ok with
    | true =>
      simp only [ok_bind, if_true, hbuf']
      exact ⟨buf', rfl, hcontents⟩
    | false => exact ⟨buf, rfl, rfl⟩

theorem passHeaders_agrees (hn : findPair 13 10 buf.contents = some n) :
    Agrees (c.judgeHeader (buf.contents.take n)) c buf (c.passHeaders buf) := by
  obtain ⟨hfind, hline, buf', hbuf', hcontents⟩ := findCRLF_some hn
  unfold judgeHeader passHeaders
  rw [hfind]
  simp only [hline, hbuf', ok_bind, length_line hn]
  split_ifs
  · exact ⟨buf', rfl, hcontents⟩
  · exact ⟨buf', rfl, hcontents⟩

theorem passes_stuck (hs : c.state = .kExpectBody ∨ c.state = .kGotAll) (fuel : ℕ) :
    passes receiveTime fuel c buf = .error .endless := by
  induction fuel with
  | zero => rfl
  | succ fuel ih =>
    have hpass : c.pass buf receiveTime = .ok (.again c buf) := by
      rcases hs with hs | hs <;> simp only [pass, hs]
    rw [passes, hpass, ok_bind]
    exact ih

theorem passes_succ_ends {fuel : ℕ} {v : Verdict Outcome Empty}
    (hv : verdict receiveTime (c, .ok true) buf.contents = v)
    (hpass : Agrees v c buf (c.pass buf receiveTime))
    (ih : ∀ (c' : HttpContext) (buf' : Buffer), buf'.readableBytes < fuel →
      Ends ((parser receiveTime).drain (c', .ok true) buf'.contents)
        (passes receiveTime fuel c' buf'))
    (hnext : ∀ s n out, v = .next s n out → s.2 = .ok true)
    (h : buf.readableBytes < fuel + 1) :
    Ends ((parser receiveTime).drain (c, .ok true) buf.contents)
      (passes receiveTime (fuel + 1) c buf) := by
  have hstep : (parser receiveTime).step (c, .ok true) buf.contents = v := hv
  cases v with
  | wait =>
    rw [Parser.drain_wait hstep, passes, hpass]
    exact ⟨buf, rfl, rfl⟩
  | halt s n out =>
    rw [Parser.drain_halt hstep, passes]
    obtain ⟨c', result⟩ := s
    cases result with
    | error e =>
      rw [hpass]
      rfl
    | ok ok =>
      obtain ⟨buf', hbuf', hcontents⟩ := hpass
      rw [hbuf']
      exact ⟨buf', rfl, hcontents⟩
  | next s n out =>
    obtain ⟨buf', hbuf', hcontents⟩ := hpass
    obtain ⟨c', result⟩ := s
    cases hnext _ _ _ rfl
    have htaken := verdict_next hv
    have hless : buf'.readableBytes < fuel := by
      rw [← Buffer.length_contents, hcontents, List.length_drop, Buffer.length_contents]
      rw [Buffer.length_contents] at htaken
      omega
    have := ih c' buf' hless
    rw [hcontents] at this
    rw [Parser.drain_next hstep, passes, hbuf']
    exact this

theorem passes_ends {fuel : ℕ} (h : buf.readableBytes < fuel) :
    Ends ((parser receiveTime).drain (c, .ok true) buf.contents)
      (passes receiveTime fuel c buf) := by
  induction fuel generalizing c buf with
  | zero => omega
  | succ fuel ih =>
    have ih' := fun c' buf' => @ih c' buf'
    rcases verdict_cases (c, .ok true) buf.contents with ⟨n, hs, hn⟩ | ⟨n, hs, hn⟩ | ⟨hs, hn⟩ | hs
    · refine passes_succ_ends (verdict_requestLine hs hn) ?_ ih' ?_ h
      · rw [pass, hs]
        exact passRequestLine_agrees hn
      · exact fun s k out hj => (judgeRequestLine_next hj).2.2
    · refine passes_succ_ends (verdict_header hs hn) ?_ ih' ?_ h
      · rw [pass, hs]
        exact passHeaders_agrees hn
      · exact fun s k out hj => (judgeHeader_next hj).2.2
    · refine passes_succ_ends (verdict_wait hs hn) ?_ ih' (by simp) h
      rcases hs with hs | hs
      · rw [pass, hs, passRequestLine, findCRLF_none hn]
        rfl
      · rw [pass, hs, passHeaders, findCRLF_none hn]
        rfl
    · have hstep : (parser receiveTime).step (c, .ok true) buf.contents =
          .halt (c, .error .endless) 0 [] := verdict_stuck hs
      rw [Parser.drain_halt hstep, passes_stuck hs]
      rfl

theorem parseRequest_ends (c : HttpContext) (buf : Buffer) (receiveTime : Timestamp) :
    Ends ((parser receiveTime).drain (c, .ok true) buf.contents) (c.parseRequest buf receiveTime) :=
  passes_ends (Nat.lt_succ_self _)

end Loop

/-- What is known of a parser that has drained its input. -/
def Settled (p : Progress Outcome UInt8 Empty) : Prop :=
  if p.halted then p.state.2 = .ok true → p.state.1.state = .kGotAll
  else p.state.2 = .ok true ∧ p.state.1.state ≠ .kGotAll

section Cuts

variable {receiveTime : Timestamp}

theorem settled_drain (receiveTime : Timestamp) (c : HttpContext) (bytes : Bytes) :
    Settled ((parser receiveTime).drain (c, .ok true) bytes) := by
  suffices ∀ s : Outcome, s.2 = .ok true → Settled ((parser receiveTime).drain s bytes) from
    this _ rfl
  intro s
  induction s, bytes using (parser receiveTime).drain_induction with
  | wait s bytes h =>
    intro hok
    rw [Parser.drain_wait h]
    refine ⟨hok, fun hgot => ?_⟩
    cases (verdict_stuck (.inr hgot)).symm.trans h
  | halt s bytes s' n out h =>
    intro _
    rw [Parser.drain_halt h]
    intro hok
    have h : verdict receiveTime s bytes = .halt s' n out := h
    rcases verdict_cases s bytes with ⟨n, hs, hn⟩ | ⟨n, hs, hn⟩ | ⟨hs, hn⟩ | hs
    · rw [verdict_requestLine hs hn] at h
      exact absurd hok (judgeRequestLine_halt h).2.2.1
    · rw [verdict_header hs hn] at h
      exact (judgeHeader_halt h).2.1
    · cases (verdict_wait hs hn).symm.trans h
    · cases (verdict_stuck hs).symm.trans h
      cases hok
  | next s bytes s' n out h ih =>
    intro _
    rw [Parser.drain_next h]
    apply ih
    have h : verdict receiveTime s bytes = .next s' n out := h
    rcases verdict_cases s bytes with ⟨n, hs, hn⟩ | ⟨n, hs, hn⟩ | ⟨hs, hn⟩ | hs
    · rw [verdict_requestLine hs hn] at h
      exact (judgeRequestLine_next h).2.2
    · rw [verdict_header hs hn] at h
      exact (judgeHeader_next h).2.2
    · cases (verdict_wait hs hn).symm.trans h
    · cases (verdict_stuck hs).symm.trans h

theorem parseChunks_ends {c : HttpContext} {buf : Buffer} {p : Progress Outcome UInt8 Empty}
    (chunks : List Bytes) (hstate : p.state = (c, .ok true)) (hbuf : buf.contents = p.rest)
    (hp : p.halted = false) :
    Ends (chunks.foldl (parser receiveTime).feed p) (parseChunks receiveTime c buf chunks) := by
  induction chunks generalizing c buf p with
  | nil =>
    simp only [List.foldl_nil, Ends, hstate, parseChunks]
    exact ⟨buf, rfl, hbuf⟩
  | cons chunk chunks ih =>
    obtain ⟨buf₁, hbuf₁, hc₁, -⟩ := buf.append_spec chunk
    have hfeed : (parser receiveTime).feed p chunk =
        { (parser receiveTime).drain (c, .ok true) buf₁.contents with
          out := p.out ++ ((parser receiveTime).drain (c, .ok true) buf₁.contents).out } := by
      rw [hc₁, hbuf, ← hstate]
      simp [Parser.feed, hp]
    have hparse : Ends ((parser receiveTime).feed p chunk) (c.parseRequest buf₁ receiveTime) := by
      rw [hfeed]
      exact parseRequest_ends c buf₁ receiveTime
    have hsettled : Settled ((parser receiveTime).feed p chunk) := by
      rw [hfeed]
      exact settled_drain receiveTime c buf₁.contents
    rw [List.foldl_cons, parseChunks, hbuf₁, ok_bind]
    generalize (parser receiveTime).feed p chunk = q at hparse hsettled ⊢
    cases hq : q.halted with
    | false =>
      simp only [Settled, hq, Bool.false_eq_true, if_false] at hsettled
      simp only [Ends, hsettled.1] at hparse
      obtain ⟨buf₂, hbuf₂, hc₂⟩ := hparse
      have hgot : q.state.1.gotAll = false := by simp [gotAll, hsettled.2]
      rw [hbuf₂]
      simp only [ok_bind, hgot]
      exact ih (Prod.ext rfl hsettled.1) hc₂ hq
    | true =>
      simp only [Settled, hq, if_true] at hsettled
      rw [Parser.foldl_feed_halted hq]
      cases hresult : q.state.2 with
      | error e =>
        simp only [Ends, hresult] at hparse ⊢
        rw [hparse]
        rfl
      | ok ok =>
        simp only [Ends, hresult] at hparse ⊢
        obtain ⟨buf₂, hbuf₂, hc₂⟩ := hparse
        obtain ⟨buf₃, hbuf₃, hc₃⟩ := HttpResponse.foldlM_append_ok chunks buf₂
        have hdone : ¬ (ok = true ∧ (!q.state.1.gotAll) = true) := by
          rintro ⟨rfl, hgot⟩
          simp [gotAll, hsettled hresult] at hgot
        refine ⟨buf₃, ?_, by rw [hc₃, hc₂]⟩
        rw [hbuf₂]
        simp only [ok_bind, hdone, if_false, hbuf₃]
        rfl

/-- A context that has not tripped over its own method. -/
def Ready (c : HttpContext) : Prop :=
  c.state = .kExpectHeaders ∨ c.state = .kExpectRequestLine ∧ c.request.method = .kInvalid

theorem processRequestLine_returns {r : HttpRequest} (h : r.method = .kInvalid) (line : Bytes) :
    ∃ result, r.processRequestLine line = .ok result := by
  unfold HttpRequest.processRequestLine HttpRequest.setMethod
  simp only [assertThat_pos h, ok_bind, pure_eq_ok]
  split_ifs <;> exact ⟨_, rfl⟩

theorem drain_returns (receiveTime : Timestamp) {c : HttpContext} (h : c.Ready) (bytes : Bytes) :
    ∃ ok, ((parser receiveTime).drain (c, .ok true) bytes).state.2 = .ok ok := by
  suffices ∀ s : Outcome, s.1.Ready → s.2 = .ok true →
      ∃ ok, ((parser receiveTime).drain s bytes).state.2 = .ok ok from this _ h rfl
  intro s
  induction s, bytes using (parser receiveTime).drain_induction with
  | wait s bytes h =>
    intro _ hok
    rw [Parser.drain_wait h]
    exact ⟨true, hok⟩
  | halt s bytes s' n out h =>
    intro hready _
    rw [Parser.drain_halt h]
    have h : verdict receiveTime s bytes = .halt s' n out := h
    rcases verdict_cases s bytes with ⟨n, hs, hn⟩ | ⟨n, hs, hn⟩ | ⟨hs, hn⟩ | hs
    · have hmethod : s.1.request.method = .kInvalid := by simpa [Ready, hs] using hready
      obtain ⟨⟨ok, request⟩, hprocess⟩ := processRequestLine_returns hmethod (bytes.take n)
      rw [verdict_requestLine hs hn, judgeRequestLine, hprocess] at h
      cases ok <;> cases h
      exact ⟨false, rfl⟩
    · rw [verdict_header hs hn] at h
      exact ⟨true, (judgeHeader_halt h).2.2⟩
    · cases (verdict_wait hs hn).symm.trans h
    · rcases hs with hs | hs <;> simp [Ready, hs] at hready
  | next s bytes s' n out h ih =>
    intro _ _
    rw [Parser.drain_next h]
    have h : verdict receiveTime s bytes = .next s' n out := h
    rcases verdict_cases s bytes with ⟨n, hs, hn⟩ | ⟨n, hs, hn⟩ | ⟨hs, hn⟩ | hs
    · rw [verdict_requestLine hs hn] at h
      obtain ⟨-, hstate, hok⟩ := judgeRequestLine_next h
      exact ih (.inl hstate) hok
    · rw [verdict_header hs hn] at h
      obtain ⟨-, hstate, hok⟩ := judgeHeader_next h
      exact ih (.inl (hstate.trans hs)) hok
    · cases (verdict_wait hs hn).symm.trans h
    · cases (verdict_stuck hs).symm.trans h

theorem init_ready : init.Ready := .inr ⟨rfl, rfl⟩

theorem drain_init_nil : (parser receiveTime).drain (init, .ok true) [] =
    ⟨(init, .ok true), [], [], false⟩ := by
  apply Parser.drain_wait
  show verdict receiveTime (init, .ok true) [] = .wait
  exact verdict_wait (.inl rfl) rfl

end Cuts

/-- Whatever bytes arrive and however they are cut, parsing them chunk by chunk
returns what one call on all of them returns, with the same state, the same
request and the same unread bytes. -/
theorem parse_independent_of_cuts (receiveTime : Timestamp) (chunks : List Bytes)
    (input whole : Buffer) (hinput : input.contents = [])
    (hwhole : whole.contents = chunks.flatten) :
    ∃ ok c input' whole', parseChunks receiveTime init input chunks = .ok (ok, c, input') ∧
      init.parseRequest whole receiveTime = .ok (ok, c, whole') ∧
      input'.contents = whole'.contents := by
  have hfeed : chunks.foldl (parser receiveTime).feed ⟨(init, .ok true), [], [], false⟩ =
      (parser receiveTime).drain (init, .ok true) whole.contents := by
    rw [← drain_init_nil, Parser.foldl_feed_drain, List.nil_append, hwhole]
  have hpieces : Ends ((parser receiveTime).drain (init, .ok true) whole.contents)
      (parseChunks receiveTime init input chunks) := by
    rw [← hfeed]
    exact parseChunks_ends chunks rfl hinput rfl
  have hone := parseRequest_ends init whole receiveTime
  obtain ⟨ok, hok⟩ := drain_returns receiveTime init_ready whole.contents
  simp only [Ends, hok] at hpieces hone
  obtain ⟨input', hinput', hrest⟩ := hpieces
  obtain ⟨whole', hwhole', hrest'⟩ := hone
  exact ⟨ok, _, input', whole', hinput', hwhole', hrest.trans hrest'.symm⟩

/-- A request cut inside its first line ending, followed by the start of another. -/
theorem parse_independent_of_cuts_in_three :
    ∃ ok c input' whole',
      parseChunks 7 init default [ascii "GET /a?b HTTP/1.1\r", ascii "\nHost: x\r\n\r\nPU",
        ascii "T"] = .ok (ok, c, input') ∧
      init.parseRequest
        { buffer := List.replicate 8 0 ++ ascii "GET /a?b HTTP/1.1\r\nHost: x\r\n\r\nPUT"
          readerIndex := 8
          writerIndex := 41
          reader_le := by decide
          writer_le := by decide
          prepend_le := by decide } 7 = .ok (ok, c, whole') ∧
      input'.contents = whole'.contents :=
  parse_independent_of_cuts 7 _ _ _ (Buffer.contents_ofSize _) (by decide)

end HttpContext
end Muduo
