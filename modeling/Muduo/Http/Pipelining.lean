import Muduo.Foundations.Deadlines
import Muduo.Http.Grammar

/-!
# Requests in a row

A client that keeps the connection open may send its next request before the
answer to the last one has arrived. `onMessage` answers at most one request for
each piece of input, so a request that is complete but was not the first one in
its piece waits for a later piece. All requests are answered exactly when enough
pieces end behind each of them.
-/

namespace Muduo

open Foundations HttpContext

/-- The callback leaves a connection open that it finds open. -/
def HttpCallback.KeepsOpen {σ : Type} (callback : HttpCallback σ) : Prop :=
  ∀ user req response, response.closeConnection = false →
    (callback user req response).2.closeConnection = false

/-- The request of the text, arrived at the given time. -/
def RequestText.requestAt (r : RequestText) (receiveTime : Timestamp) : HttpRequest :=
  r.request.arrivedAt receiveTime

namespace HttpServer

variable {σ : Type} (callback : HttpCallback σ)

/-- One call of the callback and one response for each request, in order. -/
def replies : σ → List HttpRequest → List HttpEvent
  | _, [] => []
  | user, req :: reqs =>
    let (user, response) := callback user req (.init false)
    .httpCallback req :: .send response.pieces.flatten :: replies user reqs

/-- The events are the replies to the requests, whenever each of them arrived. -/
def Answered (user : σ) (requests : List RequestText) (events : List HttpEvent) : Prop :=
  ∃ times : List Timestamp, times.length = requests.length ∧
    events = replies callback user (List.zipWith RequestText.requestAt requests times)

/-- Where the request of the given index ends in the stream of all of them. -/
def requestEnd (requests : List RequestText) (i : ℕ) : ℕ :=
  ((requests.take (i + 1)).map (·.bytes.length)).sum

/-- Where the pieces end in the stream, if the first one starts at `start`. -/
def pieceEnds : ℕ → List (Bytes × Timestamp) → List ℕ
  | _, [] => []
  | start, piece :: pieces => (start + piece.1.length) :: pieceEnds (start + piece.1.length) pieces

theorem pieceEnds_ge {start tick : ℕ} {pieces : List (Bytes × Timestamp)}
    (h : tick ∈ pieceEnds start pieces) : start ≤ tick := by
  induction pieces generalizing start with
  | nil => simp [pieceEnds] at h
  | cons piece pieces ih =>
    rcases List.mem_cons.mp h with rfl | h
    · omega
    · have := ih h
      omega

theorem pieceEnds_sorted (start : ℕ) (pieces : List (Bytes × Timestamp)) :
    (pieceEnds start pieces).Pairwise (· ≤ ·) := by
  induction pieces generalizing start with
  | nil => exact List.Pairwise.nil
  | cons piece pieces ih => exact List.pairwise_cons.mpr ⟨fun _ h => pieceEnds_ge h, ih _⟩

theorem requestEnd_monotone (requests : List RequestText) : Monotone (requestEnd requests) := by
  apply monotone_nat_of_le_succ
  intro i
  unfold requestEnd
  rw [List.take_add_one (i := i + 1), List.map_append, List.sum_append]
  exact Nat.le_add_right _ _

theorem length_replies (user : σ) (reqs : List HttpRequest) :
    (replies callback user reqs).length = 2 * reqs.length := by
  induction reqs generalizing user with
  | nil => rfl
  | cons req reqs ih =>
    simp only [replies, List.length_cons, ih]
    omega

section Run

variable {callback} {s : HttpSession σ} {pending : Bytes}

/-- A request that keeps the connection open, and one reply to it. -/
theorem answer_alive (hcallback : callback.KeepsOpen) {req : HttpRequest} (h : closes req = false)
    (user : σ) (reqs : List HttpRequest) :
    (answer callback user req).2 ++ replies callback (answer callback user req).1 reqs =
      replies callback user (req :: reqs) := by
  have hopen := hcallback user req (.init false) rfl
  simp [answer, replies, h, hopen]

theorem deliver_completes (hcallback : callback.KeepsOpen) (hs : s.Resumes pending)
    (piece : Bytes × Timestamp) {r : RequestText} (halive : closes r.request = false) {more : Bytes}
    (hmore : pending ++ piece.1 = r.bytes ++ more) :
    ∃ s' t, deliver callback s piece = .ok s' ∧ s'.Resumes more ∧
      ∀ reqs, s'.events ++ replies callback s'.user reqs =
        s.events ++ replies callback s.user (r.requestAt t :: reqs) := by
  have hreading := reading_request r more
  rw [← hmore] at hreading
  obtain ⟨s', t, hdeliver, hevents, hs'⟩ := deliver_answers callback hs piece
    (congrArg Progress.halted hreading) (congrArg (·.state.2) hreading)
  rw [hreading] at hevents hs'
  obtain ⟨huser, hevents⟩ := Prod.ext_iff.mp hevents
  refine ⟨s', t, hdeliver, hs', fun reqs => ?_⟩
  have halive : closes (r.requestAt t) = false := halive
  rw [← answer_alive hcallback halive, ← List.append_assoc]
  exact congrArg₂ (· ++ replies callback · reqs) hevents huser

/-- A request and the bytes that have arrived: one of them is a part of the other. -/
theorem complete_or_start {arrived later : Bytes} {r : RequestText} {rest : Bytes}
    (h : arrived ++ later = r.bytes ++ rest) :
    (r.bytes.length ≤ arrived.length ∧ ∃ more, arrived = r.bytes ++ more ∧ more ++ later = rest) ∨
      (arrived.length < r.bytes.length ∧ ∃ more, more ≠ [] ∧ r.bytes = arrived ++ more) := by
  by_cases hlen : r.bytes.length ≤ arrived.length
  · obtain ⟨more, rfl⟩ := List.prefix_of_prefix_length_le (List.prefix_append r.bytes rest)
      (h ▸ List.prefix_append arrived later) hlen
    rw [List.append_assoc] at h
    exact .inl ⟨hlen, more, rfl, List.append_cancel_left h⟩
  · obtain ⟨more, hmore⟩ := List.prefix_of_prefix_length_le (List.prefix_append arrived later)
      (h ▸ List.prefix_append r.bytes rest) (by omega)
    refine .inr ⟨by omega, more, ?_, hmore.symm⟩
    rintro rfl
    rw [List.append_nil] at hmore
    exact hlen (by rw [hmore])

/-- From here on the server answers requests as the pieces allow, and no others. -/
def ServesOn (callback : HttpCallback σ) (requests : List RequestText) (s : HttpSession σ)
    (done start : ℕ) (pieces : List (Bytes × Timestamp)) : Prop :=
  ∃ s' times, serve callback s pieces = .ok s' ∧
    jobsDone (requestEnd requests) requests.length done (pieceEnds start pieces) =
      done + times.length ∧
    s'.events = s.events ++ replies callback s.user
      (List.zipWith RequestText.requestAt (requests.drop done) times)

section ServesOn

variable {requests : List RequestText} {done start : ℕ} {piece : Bytes × Timestamp}
  {pieces : List (Bytes × Timestamp)} {s₁ : HttpSession σ}

theorem servesOn_idle (hdeliver : deliver callback s piece = .ok s₁) (huser : s₁.user = s.user)
    (hevents : s₁.events = s.events)
    (hjob : ¬ (done < requests.length ∧ requestEnd requests done ≤ start + piece.1.length))
    (hrest : ServesOn callback requests s₁ done (start + piece.1.length) pieces) :
    ServesOn callback requests s done start (piece :: pieces) := by
  obtain ⟨s', times, hserve, hjobs, hreplies⟩ := hrest
  refine ⟨s', times, ?_, ?_, ?_⟩
  · rw [serve, List.foldlM_cons, hdeliver, ok_bind]
    exact hserve
  · rw [pieceEnds, jobsDone, if_neg hjob, hjobs]
  · rw [hreplies, huser, hevents]

theorem servesOn_answer (hlt : done < requests.length) {t : Timestamp}
    (hdeliver : deliver callback s piece = .ok s₁)
    (hreply : ∀ reqs, s₁.events ++ replies callback s₁.user reqs =
      s.events ++ replies callback s.user (requests[done].requestAt t :: reqs))
    (hjob : requestEnd requests done ≤ start + piece.1.length)
    (hrest : ServesOn callback requests s₁ (done + 1) (start + piece.1.length) pieces) :
    ServesOn callback requests s done start (piece :: pieces) := by
  obtain ⟨s', times, hserve, hjobs, hreplies⟩ := hrest
  refine ⟨s', t :: times, ?_, ?_, ?_⟩
  · rw [serve, List.foldlM_cons, hdeliver, ok_bind]
    exact hserve
  · rw [pieceEnds, jobsDone, if_pos ⟨hlt, hjob⟩, hjobs, List.length_cons]
    omega
  · rw [hreplies, List.drop_eq_getElem_cons hlt, List.zipWith_cons_cons, hreply]

end ServesOn

/-- The next request ends by its length behind the ones before it. -/
theorem requestEnd_eq {requests : List RequestText} {done : ℕ} (hlt : done < requests.length) :
    requestEnd requests done =
      ((requests.take done).map (·.bytes.length)).sum + requests[done].bytes.length := by
  rw [requestEnd, List.take_succ_eq_append_getElem hlt, List.map_append, List.sum_append]
  rfl

/-- The server does one request at each piece, if the next one is complete. -/
theorem serve_requests (hcallback : callback.KeepsOpen) {requests : List RequestText}
    (halive : ∀ r ∈ requests, closes r.request = false) (pieces : List (Bytes × Timestamp))
    {done : ℕ} (hdone : done ≤ requests.length) (hs : s.Resumes pending)
    (hrest : pending ++ (pieces.map Prod.fst).flatten =
      ((requests.drop done).map RequestText.bytes).flatten) {start : ℕ}
    (hstart : start = ((requests.take done).map (·.bytes.length)).sum + pending.length) :
    ServesOn callback requests s done start pieces := by
  -- the pending bytes and the pieces to come are the requests that are not done
  induction pieces generalizing s pending done start with
  | nil => exact ⟨s, [], rfl, rfl, by simp [replies]⟩
  | cons piece pieces ih =>
    rw [List.map_cons, List.flatten_cons, ← List.append_assoc] at hrest
    have hend : start + piece.1.length =
        ((requests.take done).map (·.bytes.length)).sum + (pending ++ piece.1).length := by
      rw [hstart, List.length_append, Nat.add_assoc]
    have hidle (hwait : (reading (pending ++ piece.1)).halted = false)
        (hjob : ¬ (done < requests.length ∧ requestEnd requests done ≤ start + piece.1.length)) :
        ServesOn callback requests s done start (piece :: pieces) := by
      obtain ⟨s₁, hdeliver, huser, hevents, hs₁⟩ := deliver_waits callback hs piece hwait
      exact servesOn_idle hdeliver huser hevents hjob (ih hdone hs₁ hrest hend)
    rcases hdone.eq_or_lt with rfl | hlt
    · rw [List.drop_length, List.map_nil, List.flatten_nil] at hrest
      obtain ⟨hnothing, -⟩ := List.append_eq_nil_iff.mp hrest
      apply hidle
      · rw [hnothing]
        exact congrArg Progress.halted drain_init_nil
      · exact fun h => lt_irrefl _ h.1
    · have hready := requestEnd_eq hlt
      rw [List.drop_eq_getElem_cons hlt, List.map_cons, List.flatten_cons] at hrest
      rcases complete_or_start hrest with ⟨hlen, more, hmore, hlater⟩ | ⟨hlen, more, hne, hmore⟩
      · obtain ⟨s₁, t, hdeliver, hs₁, hreply⟩ := deliver_completes hcallback hs piece
          (halive _ (List.getElem_mem hlt)) hmore
        have hend₁ : start + piece.1.length =
            ((requests.take (done + 1)).map (·.bytes.length)).sum + more.length := by
          rw [← requestEnd, hready, hend, hmore, List.length_append, Nat.add_assoc]
        exact servesOn_answer hlt hdeliver hreply (by omega) (ih hlt hs₁ hlater hend₁)
      · apply hidle
        · exact reading_start hmore hne
        · omega

end Run

/-- Every request of the stream gets its one call and its one response, in order,
exactly when for each request there are as many pieces that end at its end or
later as there are requests from it on. -/
theorem all_requests_answered_iff (hcallback : callback.KeepsOpen) (user : σ)
    (requests : List RequestText) (halive : ∀ r ∈ requests, closes r.request = false)
    (pieces : List (Bytes × Timestamp))
    (hpieces : (pieces.map Prod.fst).flatten = (requests.map RequestText.bytes).flatten) :
    ∃ s, serve callback (start user) pieces = .ok s ∧
      (Answered callback user requests s.events ↔
        ∀ i < requests.length,
          requests.length - i ≤ (pieceEnds 0 pieces).countP (requestEnd requests i ≤ ·)) := by
  have hstart : 0 = ((requests.take 0).map (·.bytes.length)).sum + ([] : Bytes).length := rfl
  obtain ⟨s, times, hserve, hjobs, hevents⟩ := serve_requests hcallback halive pieces
    (Nat.zero_le _) (start_resumes user) hpieces hstart
  have hevents : s.events =
      replies callback user (List.zipWith RequestText.requestAt requests times) := hevents
  rw [Nat.zero_add] at hjobs
  have hall : Answered callback user requests s.events ↔ times.length = requests.length := by
    constructor
    · rintro ⟨times', hlen', hevents'⟩
      have hle := jobsDone_le (requestEnd requests) (Nat.zero_le requests.length)
        (pieceEnds 0 pieces)
      have := congrArg List.length (hevents.symm.trans hevents')
      simp only [length_replies, List.length_zipWith] at this
      omega
    · exact fun hlen => ⟨times, hlen, hevents⟩
  have henough := jobsDone_eq_iff (requestEnd_monotone requests) (pieceEnds_sorted 0 pieces)
    (Nat.zero_le requests.length)
  refine ⟨s, hserve, ?_⟩
  rw [hall, ← hjobs]
  exact henough.trans ⟨fun h i hi => h i (Nat.zero_le i) hi, fun h i _ hi => h i hi⟩

/-- `GET / HTTP/1.1` without headers. -/
def getRoot : RequestText where
  line := ⟨.kGet, ascii "/", .kHttp11, by decide, by decide, by decide⟩
  headers := []
  line_whole := by decide
  header_whole := by simp
  header_colon := by simp

def okCallback : HttpCallback Unit := fun user _ response =>
  (user, { response with statusCode := .k200Ok, statusMessage := ascii "OK" })

theorem okCallback_keepsOpen : okCallback.KeepsOpen := fun _ _ _ h => h

/-- The second request is cut in its first line, and ends with a piece of its own. -/
theorem all_requests_answered_iff_two :
    ∃ s, serve okCallback (start ()) [(getRoot.bytes ++ ascii "GET /", 3),
        (ascii " HTTP/1.1\r\n\r\n", 8)] = .ok s ∧
      (Answered okCallback () [getRoot, getRoot] s.events ↔
        ∀ i < 2, 2 - i ≤ (pieceEnds 0 [(getRoot.bytes ++ ascii "GET /", 3),
          (ascii " HTTP/1.1\r\n\r\n", 8)]).countP (requestEnd [getRoot, getRoot] i ≤ ·)) :=
  all_requests_answered_iff okCallback okCallback_keepsOpen () [getRoot, getRoot] (by decide) _
    (by decide)

/-- Two requests in one piece: only the first one is answered. -/
theorem second_request_unanswered :
    okCallback.KeepsOpen ∧ closes getRoot.request = false ∧
      ∃ s, serve okCallback (start ()) [(getRoot.bytes ++ getRoot.bytes, 3)] = .ok s ∧
        ¬ Answered okCallback () [getRoot, getRoot] s.events := by
  have hrun : (serve okCallback (start ()) [(getRoot.bytes ++ getRoot.bytes, 3)]).toOption.map
      (·.events.length) = some 2 := by decide +kernel
  obtain ⟨s, hserve, hlen⟩ := exists_ok_of_map hrun
  refine ⟨okCallback_keepsOpen, by decide, s, hserve, ?_⟩
  rintro ⟨times, htimes, hevents⟩
  rw [hevents, length_replies, List.length_zipWith, htimes] at hlen
  cases hlen

end HttpServer
end Muduo
