import Muduo.Http.BadRequest

/-!
# The loop of the parser in the server

In two of its four states `parseRequest` would go round for ever. The server never
calls it in one of them: `onMessage` resets the context as soon as a request is
complete, and nothing else leaves the two states in which a line is expected. The
loop then goes round at most once for each line, and a call fails to return only
where `setMethod` asserts.
-/

namespace Muduo

open Foundations

namespace HttpContext

def Expecting (c : HttpContext) : Prop :=
  c.state = .kExpectRequestLine ∨ c.state = .kExpectHeaders

variable {receiveTime : Timestamp} {c : HttpContext} {bytes : Bytes}

theorem processRequestLine_fault {r : HttpRequest} {line : Bytes} {e : Fault}
    (h : r.processRequestLine line = .error e) : e = .assertion := by
  by_cases hr : r.method = .kInvalid
  · obtain ⟨result, hresult⟩ := processRequestLine_returns hr line
    cases hresult.symm.trans h
  · dsimp only [HttpRequest.processRequestLine, HttpRequest.setMethod] at h
    rw [assertThat_neg hr] at h
    split_ifs at h
    · exact (Except.error.inj h).symm
    · cases h

theorem judgeRequestLine_not_endless {s : Outcome} {k : ℕ} {line : Bytes} {out : List Empty}
    (h : c.judgeRequestLine receiveTime line = .halt s k out) : s.2 ≠ .error .endless := by
  intro hend
  obtain ⟨-, -, -, hfault⟩ := judgeRequestLine_halt h
  cases processRequestLine_fault (hfault _ hend)

/-- The loop ends, and it ends in a state for which the server is prepared. -/
theorem drain_expecting (receiveTime : Timestamp) (h : c.Expecting) (bytes : Bytes) :
    let p := (parser receiveTime).drain (c, .ok true) bytes
    p.state.2 ≠ .error .endless ∧ (p.state.1.Expecting ∨ p.state.1.state = .kGotAll) := by
  suffices ∀ s : Outcome, s.1.Expecting → s.2 = .ok true →
      ((parser receiveTime).drain s bytes).state.2 ≠ .error .endless ∧
        (((parser receiveTime).drain s bytes).state.1.Expecting ∨
          ((parser receiveTime).drain s bytes).state.1.state = .kGotAll) from this _ h rfl
  intro s
  induction s, bytes using (parser receiveTime).drain_induction with
  | wait s bytes h =>
    intro hs hok
    rw [Parser.drain_wait h]
    exact ⟨by simp [hok], .inl hs⟩
  | halt s bytes s' n out h =>
    intro hexpecting _
    rw [Parser.drain_halt h]
    have h : verdict receiveTime s bytes = .halt s' n out := h
    rcases verdict_cases s bytes with ⟨n, hs, hn⟩ | ⟨n, hs, hn⟩ | ⟨hs, hn⟩ | hs
    · rw [verdict_requestLine hs hn] at h
      have hend := judgeRequestLine_not_endless h
      obtain ⟨-, hstate, -⟩ := judgeRequestLine_halt h
      exact ⟨hend, .inl (.inl (hstate.trans hs))⟩
    · rw [verdict_header hs hn] at h
      obtain ⟨-, hstate, hok⟩ := judgeHeader_halt h
      exact ⟨by simp [hok], .inr hstate⟩
    · cases (verdict_wait hs hn).symm.trans h
    · rcases hs with hs | hs <;> simp [Expecting, hs] at hexpecting
  | next s bytes s' n out h ih =>
    intro _ _
    rw [Parser.drain_next h]
    have h : verdict receiveTime s bytes = .next s' n out := h
    rcases verdict_cases s bytes with ⟨n, hs, hn⟩ | ⟨n, hs, hn⟩ | ⟨hs, hn⟩ | hs
    · rw [verdict_requestLine hs hn] at h
      obtain ⟨-, hstate, hok⟩ := judgeRequestLine_next h
      exact ih (.inr hstate) hok
    · rw [verdict_header hs hn] at h
      obtain ⟨-, hstate, hok⟩ := judgeHeader_next h
      exact ih (.inr (hstate.trans hs)) hok
    · cases (verdict_wait hs hn).symm.trans h
    · cases (verdict_stuck hs).symm.trans h

theorem parseRequest_ne_endless (h : c.Expecting) (buf : Buffer) (receiveTime : Timestamp) :
    c.parseRequest buf receiveTime ≠ .error .endless := by
  have hends := parseRequest_ends c buf receiveTime
  obtain ⟨hend, -⟩ := drain_expecting receiveTime h buf.contents
  unfold Ends at hends
  split at hends
  · next e he =>
    rw [he] at hend
    rw [hends]
    simpa using hend
  · obtain ⟨buf', hparse, -⟩ := hends
    simp [hparse]

theorem parseRequest_state (h : c.Expecting) {buf buf' : Buffer} {ok : Bool} {c' : HttpContext}
    (hparse : c.parseRequest buf receiveTime = .ok (ok, c', buf')) :
    c'.Expecting ∨ c'.state = .kGotAll := by
  have hends := parseRequest_ends c buf receiveTime
  obtain ⟨-, hstate⟩ := drain_expecting receiveTime h buf.contents
  unfold Ends at hends
  split at hends
  · cases hends.symm.trans hparse
  · obtain ⟨buf'', hparse', -⟩ := hends
    cases hparse.symm.trans hparse'
    exact hstate

end HttpContext

namespace HttpServer

open HttpContext

variable {σ : Type} (callback : HttpCallback σ) {s s' : HttpSession σ}

theorem onMessage_ok {receiveTime : Timestamp} {ok : Bool} {c : HttpContext} {input : Buffer}
    (hparse : s.context.parseRequest s.input receiveTime = .ok (ok, c, input)) :
    ∃ s', onMessage callback s receiveTime = .ok s' ∧
      s'.context = if c.gotAll then c.reset else c := by
  cases hgot : c.gotAll <;> simp [onMessage, hparse, hgot, onRequest_ok]

theorem deliver_expecting {piece : Bytes × Timestamp} (h : s.context.Expecting)
    (hdeliver : deliver callback s piece = .ok s') : s'.context.Expecting := by
  obtain ⟨input, -, honMessage⟩ := bind_eq_ok.mp hdeliver
  obtain ⟨⟨ok, c, input'⟩, hparse, -⟩ := bind_eq_ok.mp honMessage
  obtain ⟨s'', honMessage', hcontext⟩ := onMessage_ok callback hparse
  cases honMessage.symm.trans honMessage'
  rw [hcontext]
  cases hgot : c.gotAll with
  | true => exact .inl rfl
  | false =>
    refine (parseRequest_state h hparse).resolve_right ?_
    simpa [gotAll] using hgot

theorem serve_expecting {pieces : List (Bytes × Timestamp)} (h : s.context.Expecting)
    (hserve : serve callback s pieces = .ok s') : s'.context.Expecting := by
  induction pieces generalizing s with
  | nil =>
    cases hserve
    exact h
  | cons piece pieces ih =>
    rw [serve, List.foldlM_cons] at hserve
    obtain ⟨s₁, hdeliver, hserve⟩ := bind_eq_ok.mp hserve
    exact ih (deliver_expecting callback h hdeliver) hserve

/-- The server calls the parser in this session, on this input at this time. -/
def Calls (user : σ) (pieces : List (Bytes × Timestamp)) (s : HttpSession σ) (input : Buffer)
    (receiveTime : Timestamp) : Prop :=
  ∃ done piece rest, pieces = done ++ piece :: rest ∧ serve callback (start user) done = .ok s ∧
    s.input.append piece.1 = .ok input ∧ receiveTime = piece.2

theorem deliver_returns_iff (s : HttpSession σ) (piece : Bytes × Timestamp) :
    (∃ s', deliver callback s piece = .ok s') ↔
      ∀ input, s.input.append piece.1 = .ok input →
        ∃ result, s.context.parseRequest input piece.2 = .ok result := by
  obtain ⟨input, happend, -⟩ := s.input.append_spec piece.1
  simp only [deliver, happend, ok_bind, Except.ok.injEq, forall_eq']
  constructor
  · rintro ⟨s', hs'⟩
    obtain ⟨result, hparse, -⟩ := bind_eq_ok.mp hs'
    exact ⟨result, hparse⟩
  · rintro ⟨⟨ok, c, input'⟩, hparse⟩
    obtain ⟨s', hs', -⟩ := onMessage_ok callback
      (show ({ s with input := input } : HttpSession σ).context.parseRequest input piece.2 = _
        from hparse)
    exact ⟨s', hs'⟩

/-- Everything is served exactly if each piece can be delivered. -/
theorem serve_returns_iff_delivers (s : HttpSession σ) (pieces : List (Bytes × Timestamp)) :
    (∃ s', serve callback s pieces = .ok s') ↔
      ∀ done piece rest s₁, pieces = done ++ piece :: rest → serve callback s done = .ok s₁ →
        ∃ s', deliver callback s₁ piece = .ok s' := by
  induction pieces generalizing s with
  | nil => exact iff_of_true ⟨s, rfl⟩ (by simp)
  | cons piece pieces ih =>
    constructor
    · rintro ⟨s', hserve⟩ done next rest s₁ hpieces hdone
      rw [serve, List.foldlM_cons] at hserve
      obtain ⟨s₂, hdeliver, hserve⟩ := bind_eq_ok.mp hserve
      cases done with
      | nil =>
        cases hdone
        cases hpieces
        exact ⟨s₂, hdeliver⟩
      | cons first done =>
        obtain ⟨rfl, hrest⟩ := List.cons.inj hpieces
        rw [serve, List.foldlM_cons, hdeliver, ok_bind] at hdone
        exact (ih s₂).mp ⟨s', hserve⟩ done next rest s₁ hrest hdone
    · intro h
      obtain ⟨s₂, hdeliver⟩ := h [] piece pieces s rfl rfl
      obtain ⟨s', hserve⟩ := (ih s₂).mpr fun done next rest s₁ hpieces hdone => by
        refine h (piece :: done) next rest s₁ (by rw [hpieces]; rfl) ?_
        rw [serve, List.foldlM_cons, hdeliver, ok_bind]
        exact hdone
      refine ⟨s', ?_⟩
      rw [serve, List.foldlM_cons, hdeliver, ok_bind]
      exact hserve

/-- The server calls the parser only where a line is expected, and the loop always
ends. Every call returns exactly when nothing arrives behind a bad request line
with a known method: that is where an assertion fails. -/
theorem parser_calls_return_iff (user : σ) (pieces : List (Bytes × Timestamp)) :
    (∀ s input t, Calls callback user pieces s input t →
      s.context.Expecting ∧ s.context.parseRequest input t ≠ .error .endless) ∧
    ((∀ s input t, Calls callback user pieces s input t →
      ∃ result, s.context.parseRequest input t = .ok result) ↔
        Harmless [] (pieces.map Prod.fst)) := by
  constructor
  · rintro s input t ⟨done, piece, rest, -, hserve, -, -⟩
    have hexpecting : s.context.Expecting :=
      serve_expecting callback (show (start user).context.Expecting from .inl rfl) hserve
    exact ⟨hexpecting, parseRequest_ne_endless hexpecting input t⟩
  · rw [← serve_returns callback (start_resumes user) pieces, serve_returns_iff_delivers]
    constructor
    · intro h done piece rest s hpieces hserve
      rw [deliver_returns_iff]
      intro input happend
      exact h s input piece.2 ⟨done, piece, rest, hpieces, hserve, happend, rfl⟩
    · rintro h s input t ⟨done, piece, rest, hpieces, hserve, happend, rfl⟩
      exact (deliver_returns_iff callback s piece).mp (h done piece rest s hpieces hserve) input
        happend

/-- A bad version, and one more byte: the second call of the parser aborts. -/
theorem parser_aborts_behind_bad_version :
    ∃ s input, Calls (fun user _ response => (user, response)) ()
        [(ascii "GET / BAD\r\n", 3), (ascii "x", 4)] s input 4 ∧
      s.context.parseRequest input 4 = .error .assertion := by
  let callback : HttpCallback Unit := fun user _ response => (user, response)
  have hrun : (serve callback (start ()) [(ascii "GET / BAD\r\n", 3)]).toOption.map
      (fun s => (s.input.append (ascii "x")).toOption.map (s.context.parseRequest · 4)) =
        some (some (.error .assertion)) := by
    decide +kernel
  obtain ⟨s, hserve, happend⟩ := exists_ok_of_map hrun
  obtain ⟨input, hinput, hparse⟩ := exists_ok_of_map happend
  exact ⟨s, input, ⟨[(ascii "GET / BAD\r\n", 3)], (ascii "x", 4), [], rfl, hserve, hinput, rfl⟩,
    hparse⟩

end HttpServer
end Muduo
