import Muduo.Http.Grammar

/-!
# Input behind a bad request

A request line that fails stays in the buffer, and the request keeps the method
that was read from it. The client may go on sending, and the next piece makes the
parser read the same line again, with the method set already: `setMethod` asserts
that it is not. Which conversations run into this is said here in terms of the
bytes alone.
-/

namespace Muduo

open Foundations HttpContext

def takeLine (bytes : Bytes) : Option (Bytes × Bytes) :=
  (findPair 13 10 bytes).map fun n => (bytes.take n, bytes.drop (n + 2))

def IsRequestLine (line : Bytes) : Prop := ∃ l : RequestLine, line = l.text

def StartsWithMethod (line : Bytes) : Prop :=
  ∃ m rest, m ≠ .kInvalid ∧ line = HttpRequest.Method.methodString m ++ 32 :: rest

theorem isRequestLine_iff (line : Bytes) :
    IsRequestLine line ↔
      ((HttpRequest.init.processRequestLine line).toOption.any fun p => p.1) = true := by
  constructor
  · rintro ⟨l, rfl⟩
    rw [HttpRequest.processRequestLine_text]
    rfl
  · intro h
    rcases hp : HttpRequest.init.processRequestLine line with e | ⟨ok, r⟩
    · rw [hp] at h
      cases h
    · rw [hp] at h
      cases (show ok = true from h)
      exact HttpRequest.processRequestLine_good hp

instance (line : Bytes) : Decidable (IsRequestLine line) :=
  decidable_of_iff _ (isRequestLine_iff line).symm

/-- The bytes behind the header lines: these end with the first line that has no
colon, empty or not. -/
def afterHeaders : ℕ → Bytes → Option Bytes
  | 0, _ => none
  | fuel + 1, bytes => do
    let (line, rest) ← takeLine bytes
    if 58 ∈ line then afterHeaders fuel rest else some rest

/-- The bytes behind the first request, if that is complete. -/
def afterRequest (bytes : Bytes) : Option Bytes := do
  let (line, rest) ← takeLine bytes
  if IsRequestLine line then afterHeaders (rest.length + 1) rest else none

/-- What stays of the bytes when a request in front has been answered. -/
def leftover (bytes : Bytes) : Bytes := (afterRequest bytes).getD bytes

/-- The first line starts like a request and is none. -/
def Poisons (bytes : Bytes) : Prop :=
  ∃ line rest, takeLine bytes = some (line, rest) ∧ StartsWithMethod line ∧ ¬ IsRequestLine line

/-- Nothing arrives behind a bad request line with a known method. -/
def Harmless : Bytes → List Bytes → Prop
  | _, [] => True
  | pending, chunk :: chunks =>
    (chunks ≠ [] → ¬ Poisons (pending ++ chunk)) ∧ Harmless (leftover (pending ++ chunk)) chunks

namespace HttpContext

variable {bytes line rest : Bytes}

theorem takeLine_eq_some (h : takeLine bytes = some (line, rest)) :
    ∃ n, findPair 13 10 bytes = some n ∧ bytes.take n = line ∧ line.length = n ∧
      bytes.drop (n + 2) = rest := by
  obtain ⟨n, hn, hcut⟩ := Option.map_eq_some_iff.mp h
  obtain ⟨hline, hrest⟩ := Prod.mk.inj hcut
  exact ⟨n, hn, hline, hline ▸ length_line hn, hrest⟩

theorem takeLine_eq_none (h : takeLine bytes = none) : findPair 13 10 bytes = none :=
  Option.map_eq_none_iff.mp h

theorem drain_afterHeaders (fuel : ℕ) (request : HttpRequest) (hfuel : bytes.length < fuel) :
    let p := (parser Timestamp.invalid).drain (⟨.kExpectHeaders, request⟩, .ok true) bytes
    p.state.2 = .ok true ∧ p.halted = (afterHeaders fuel bytes).isSome ∧
      (p.halted = true → p.rest = (afterHeaders fuel bytes).getD []) := by
  induction fuel generalizing bytes request with
  | zero => omega
  | succ fuel ih =>
    cases hline : takeLine bytes with
    | none =>
      have hstep : (parser Timestamp.invalid).step (⟨.kExpectHeaders, request⟩, .ok true) bytes =
          .wait := verdict_wait (.inr rfl) (takeLine_eq_none hline)
      simp [Parser.drain_wait hstep, afterHeaders, hline]
    | some cut =>
      obtain ⟨line, rest⟩ := cut
      obtain ⟨n, hn, htake, hlen, hdrop⟩ := takeLine_eq_some hline
      have hverdict : (parser Timestamp.invalid).step (⟨.kExpectHeaders, request⟩, .ok true) bytes =
          judgeHeader ⟨.kExpectHeaders, request⟩ line := by
        rw [← htake]
        exact verdict_header rfl hn
      by_cases hcolon : 58 ∈ line
      · have hlt := List.idxOf_lt_length_iff.mpr hcolon
        rw [judgeHeader, if_pos (by omega)] at hverdict
        have hshort : rest.length < fuel := by
          have := findPair_lt hn
          rw [← hdrop, List.length_drop]
          omega
        have := ih (request.addHeader line (line.idxOf 58)) hshort
        simpa [Parser.drain_next hverdict, hlen, hdrop, afterHeaders, hline, hcolon] using this
      · have hidx : line.idxOf 58 = line.length := List.idxOf_eq_length_iff.mpr hcolon
        rw [judgeHeader, if_neg (by simp [hidx])] at hverdict
        simp [Parser.drain_halt hverdict, hlen, hdrop, afterHeaders, hline, hcolon]

theorem reading_good (hline : takeLine bytes = some (line, rest)) (hgood : IsRequestLine line) :
    ∃ request, reading bytes =
      (parser Timestamp.invalid).drain (⟨.kExpectHeaders, request⟩, .ok true) rest := by
  obtain ⟨n, hn, htake, hlen, hdrop⟩ := takeLine_eq_some hline
  obtain ⟨l, rfl⟩ := hgood
  have hstep : (parser Timestamp.invalid).step (init, .ok true) bytes =
      .next (⟨.kExpectHeaders, l.request⟩, .ok true) (l.text.length + 2) [] := by
    show verdict Timestamp.invalid (init, .ok true) bytes = _
    rw [verdict_requestLine rfl hn, htake, judgeRequestLine]
    simp only [init, HttpRequest.processRequestLine_text]
    rfl
  refine ⟨l.request, ?_⟩
  rw [reading, Parser.drain_next hstep, hlen, hdrop]
  rfl

theorem reading_bad (hline : takeLine bytes = some (line, rest)) {request : HttpRequest}
    (hbad : HttpRequest.init.processRequestLine line = .ok (false, request)) :
    reading bytes = ⟨(⟨.kExpectRequestLine, request⟩, .ok false), bytes, [], true⟩ := by
  obtain ⟨n, hn, htake, -, -⟩ := takeLine_eq_some hline
  have hstep : (parser Timestamp.invalid).step (init, .ok true) bytes =
      .halt (⟨.kExpectRequestLine, request⟩, .ok false) 0 [] := by
    show verdict Timestamp.invalid (init, .ok true) bytes = _
    rw [verdict_requestLine rfl hn, htake, judgeRequestLine]
    simp only [init, hbad]
  rw [reading, Parser.drain_halt hstep, List.drop_zero]

end HttpContext

namespace HttpRequest

theorem processRequestLine_poisons {line : Bytes} (hmethod : StartsWithMethod line)
    (hbad : ¬ IsRequestLine line) :
    ∃ r, init.processRequestLine line = .ok (false, r) ∧ r.method ≠ .kInvalid := by
  obtain ⟨m, rest, hm, rfl⟩ := hmethod
  have hprocess := processRequestLine_known (show init.method = .kInvalid from rfl) hm rest
  rcases hset : setTargetAndVersion { init with method := m } rest with ⟨ok, r⟩
  rw [hset] at hprocess
  cases ok with
  | true => exact absurd (processRequestLine_good hprocess) hbad
  | false =>
    refine ⟨r, hprocess, ?_⟩
    have := setTargetAndVersion_method { init with method := m } rest
    rw [hset] at this
    exact this.trans_ne hm

/-- With the method set, a line with a blank trips the assertion. -/
theorem processRequestLine_trips {r : HttpRequest} (hr : r.method ≠ .kInvalid) {line : Bytes}
    (hmethod : StartsWithMethod line) : r.processRequestLine line = .error .assertion := by
  obtain ⟨m, rest, -, rfl⟩ := hmethod
  dsimp only [processRequestLine, setMethod]
  rw [idxOf_append_cons (methodString_blank m), if_pos (by simp), assertThat_neg hr]
  rfl

end HttpRequest

namespace HttpServer

variable {σ : Type} (callback : HttpCallback σ) {s : HttpSession σ} {pending : Bytes}

/-- The next piece trips the assertion, whatever it is. -/
def Poisoned (s : HttpSession σ) : Prop := ∀ piece, deliver callback s piece = .error .assertion

theorem deliver_harmless (hs : s.Resumes pending) (piece : Bytes × Timestamp)
    (h : ¬ Poisons (pending ++ piece.1)) :
    ∃ s', deliver callback s piece = .ok s' ∧ s'.Resumes (leftover (pending ++ piece.1)) := by
  cases hline : takeLine (pending ++ piece.1) with
  | none =>
    have hstep : (parser Timestamp.invalid).step (HttpContext.init, .ok true)
        (pending ++ piece.1) = .wait := verdict_wait (.inl rfl) (takeLine_eq_none hline)
    have hwait : (reading (pending ++ piece.1)).halted = false := by
      rw [reading, Parser.drain_wait hstep]
    obtain ⟨s', hdeliver, -, -, hs'⟩ := deliver_waits callback hs piece hwait
    refine ⟨s', hdeliver, ?_⟩
    simpa [leftover, afterRequest, hline] using hs'
  | some cut =>
    obtain ⟨line, rest⟩ := cut
    by_cases hgood : IsRequestLine line
    · obtain ⟨request, hreading⟩ := reading_good hline hgood
      have hleft : leftover (pending ++ piece.1) =
          (afterHeaders (rest.length + 1) rest).getD (pending ++ piece.1) := by
        simp [leftover, afterRequest, hline, hgood]
      obtain ⟨hok, hhalted, hrest⟩ := drain_afterHeaders (rest.length + 1) request
        (Nat.lt_succ_self rest.length)
      rw [← hreading] at hok hhalted hrest
      cases hafter : afterHeaders (rest.length + 1) rest with
      | none =>
        rw [hafter] at hhalted hleft
        obtain ⟨s', hdeliver, -, -, hs'⟩ := deliver_waits callback hs piece hhalted
        exact ⟨s', hdeliver, hleft ▸ hs'⟩
      | some more =>
        rw [hafter] at hhalted hleft hrest
        obtain ⟨s', -, hdeliver, -, hs'⟩ := deliver_answers callback hs piece hhalted hok
        rw [hrest hhalted] at hs'
        exact ⟨s', hdeliver, hleft ▸ hs'⟩
    · have hunknown : ¬ StartsWithMethod line :=
        fun hmethod => h ⟨line, rest, hline, hmethod, hgood⟩
      have hreading := reading_bad hline (HttpRequest.processRequestLine_unknown rfl hunknown)
      obtain ⟨s', hdeliver, hcontext, hinput⟩ := deliver_rejects callback hs piece
        (congrArg (·.state.2) hreading) (congrArg (·.state.1.gotAll) hreading)
      rw [hreading] at hcontext hinput
      have hleft : leftover (pending ++ piece.1) = pending ++ piece.1 := by
        simp [leftover, afterRequest, hline, hgood]
      rw [hleft]
      exact ⟨s', hdeliver, HttpSession.resumes_fresh hcontext hinput⟩

theorem poisoned_of_line {line rest : Bytes} (hstate : s.context.state = .kExpectRequestLine)
    (hrequest : s.context.request.method ≠ .kInvalid)
    (hline : takeLine s.input.contents = some (line, rest)) (hmethod : StartsWithMethod line) :
    Poisoned callback s := by
  intro piece
  obtain ⟨input, happend, hinput, -⟩ := s.input.append_spec piece.1
  obtain ⟨n, hn, htake, -, -⟩ := takeLine_eq_some hline
  have hstep : (parser piece.2).step (s.context, .ok true) input.contents =
      .halt (s.context, .error .assertion) 0 [] := by
    show verdict piece.2 (s.context, .ok true) input.contents = _
    rw [hinput, verdict_requestLine hstate (findPair_append hn _), take_line_append hn, htake,
      judgeRequestLine]
    simp only [HttpRequest.processRequestLine_trips hrequest hmethod]
  have hends := parseRequest_ends s.context input piece.2
  rw [Parser.drain_halt hstep] at hends
  have hparse : s.context.parseRequest input piece.2 = .error .assertion := hends
  simp [deliver, onMessage, happend, hparse]

theorem deliver_poisons (hs : s.Resumes pending) (piece : Bytes × Timestamp)
    (h : Poisons (pending ++ piece.1)) :
    ∃ s', deliver callback s piece = .ok s' ∧ Poisoned callback s' := by
  obtain ⟨line, rest, hline, hmethod, hbad⟩ := h
  obtain ⟨r, hprocess, hr⟩ := HttpRequest.processRequestLine_poisons hmethod hbad
  have hreading := reading_bad hline hprocess
  obtain ⟨s', hdeliver, hcontext, hinput⟩ := deliver_rejects callback hs piece
    (congrArg (·.state.2) hreading) (congrArg (·.state.1.gotAll) hreading)
  rw [hreading] at hcontext hinput
  have hkept : s'.context.request.method = r.method :=
    congrArg (fun c : HttpContext => c.request.method) hcontext
  have hinput : s'.input.contents = pending ++ piece.1 := hinput
  rw [← hinput] at hline
  rw [← hkept] at hr
  exact ⟨s', hdeliver,
    poisoned_of_line callback (congrArg HttpContext.state hcontext) hr hline hmethod⟩

theorem serve_returns (hs : s.Resumes pending) (pieces : List (Bytes × Timestamp)) :
    (∃ s', serve callback s pieces = .ok s') ↔ Harmless pending (pieces.map Prod.fst) := by
  induction pieces generalizing s pending with
  | nil => exact iff_of_true ⟨s, rfl⟩ trivial
  | cons piece pieces ih =>
    by_cases hpoisons : Poisons (pending ++ piece.1)
    · obtain ⟨s₁, hdeliver, hpoisoned⟩ := deliver_poisons callback hs piece hpoisons
      cases pieces with
      | nil =>
        refine iff_of_true ⟨s₁, ?_⟩ ⟨fun h => absurd rfl h, trivial⟩
        rw [serve, List.foldlM_cons, hdeliver]
        rfl
      | cons piece₂ pieces =>
        refine iff_of_false ?_ fun h => h.1 (by simp) hpoisons
        rintro ⟨s', hserve⟩
        rw [serve, List.foldlM_cons, hdeliver, ok_bind, List.foldlM_cons, hpoisoned] at hserve
        cases hserve
    · obtain ⟨s₁, hdeliver, hs₁⟩ := deliver_harmless callback hs piece hpoisons
      have hserve : serve callback s (piece :: pieces) = serve callback s₁ pieces := by
        rw [serve, List.foldlM_cons, hdeliver, ok_bind]
        rfl
      rw [hserve, ih hs₁]
      exact ⟨fun h => ⟨fun _ => hpoisons, h⟩, fun h => h.2⟩

/-- No assertion fails, and no other fault occurs, exactly when nothing arrives
behind a bad request line with a known method. -/
theorem no_assertion_fails_iff (user : σ) (pieces : List (Bytes × Timestamp)) :
    (∃ s, serve callback (start user) pieces = .ok s) ↔ Harmless [] (pieces.map Prod.fst) :=
  serve_returns callback (start_resumes user) pieces

/-- A bad version, and one more byte. -/
theorem bad_version_then_byte :
    serve (fun user _ response => (user, response)) (start ())
      [(ascii "GET / BAD\r\n", 3), (ascii "x", 4)] = .error .assertion := by
  decide +kernel

end HttpServer
end Muduo
