import Muduo.Http.Pending

/-!
# Well-formed requests

The requests the parser is for, written down without the parser: a request line
of a known method, a target and a version with one blank between them, header
lines with a colon, and an empty line. The parser reads each of them, whatever
stands behind it, and accepts no other request line.
-/

namespace Muduo

open Foundations

def crlf : Bytes := [13, 10]

namespace HttpRequest

def Method.methodString : Method → Bytes
  | .kInvalid => ascii "UNKNOWN"
  | .kGet => ascii "GET"
  | .kPost => ascii "POST"
  | .kHead => ascii "HEAD"
  | .kPut => ascii "PUT"
  | .kDelete => ascii "DELETE"

def Version.text : Version → Bytes
  | .kUnknown => []
  | .kHttp10 => ascii "HTTP/1.0"
  | .kHttp11 => ascii "HTTP/1.1"

end HttpRequest

structure RequestLine where
  method : HttpRequest.Method
  target : Bytes
  version : HttpRequest.Version
  method_known : method ≠ .kInvalid
  version_known : version ≠ .kUnknown
  target_blank : 32 ∉ target

namespace RequestLine

def text (l : RequestLine) : Bytes :=
  l.method.methodString ++ 32 :: (l.target ++ 32 :: l.version.text)

/-- The request that such a line starts. The query keeps its question mark. -/
def request (l : RequestLine) : HttpRequest :=
  { HttpRequest.init with
    method := l.method
    version := l.version
    path := l.target.takeWhile (· ≠ 63)
    query := l.target.dropWhile (· ≠ 63) }

theorem path_append_query (l : RequestLine) : l.request.path ++ l.request.query = l.target :=
  List.takeWhile_append_dropWhile

theorem path_mark (l : RequestLine) : 63 ∉ l.request.path := by
  intro h
  have := List.mem_takeWhile_imp h
  simp at this

theorem query_mark (l : RequestLine) :
    l.request.query = [] ∨ l.request.query.head? = some 63 := by
  cases hquery : l.request.query with
  | nil => exact .inl rfl
  | cons a rest =>
    have hhead := List.head?_dropWhile_not (· ≠ 63) l.target
    rw [show l.target.dropWhile (· ≠ 63) = a :: rest from hquery] at hhead
    right
    simpa using hhead

end RequestLine

/-- The text of a request without a body. -/
structure RequestText where
  line : RequestLine
  headers : List Bytes
  line_whole : findPair 13 10 line.text = none
  header_whole : ∀ h ∈ headers, findPair 13 10 h = none
  header_colon : ∀ h ∈ headers, 58 ∈ h

namespace RequestText

def bytes (r : RequestText) : Bytes :=
  r.line.text ++ crlf ++ (r.headers.map (· ++ crlf)).flatten ++ crlf

/-- The request of the text, without the time of its arrival. -/
def request (r : RequestText) : HttpRequest :=
  r.headers.foldl (fun request h => request.addHeader h (h.idxOf 58)) r.line.request

end RequestText

namespace HttpRequest

theorem idxOf_append_cons {l : Bytes} {a : UInt8} (h : a ∉ l) (m : Bytes) :
    (l ++ a :: m).idxOf a = l.length := by
  rw [List.idxOf_append_of_notMem h, List.idxOf_cons_self, Nat.add_zero]

theorem eq_take_cons_drop {l : Bytes} {a : UInt8} (h : l.idxOf a ≠ l.length) :
    l = l.take (l.idxOf a) ++ a :: l.drop (l.idxOf a + 1) ∧ a ∉ l.take (l.idxOf a) := by
  have hlt : l.idxOf a < l.length := lt_of_le_of_ne List.idxOf_le_length h
  constructor
  · conv_lhs => rw [← List.take_append_drop (l.idxOf a) l, List.drop_eq_getElem_cons hlt,
      List.getElem_idxOf hlt]
  · rw [List.mem_take_iff_idxOf_lt (List.idxOf_lt_length_iff.mp hlt)]
    exact lt_irrefl _

theorem methodString_blank (m : Method) : 32 ∉ m.methodString := by
  cases m <;> decide

theorem methodOf_methodString {m : Method} (h : m ≠ .kInvalid) : methodOf m.methodString = m := by
  cases m with
  | kInvalid => exact absurd rfl h
  | _ => decide

theorem methodString_methodOf {text : Bytes} (h : methodOf text ≠ .kInvalid) :
    (methodOf text).methodString = text := by
  unfold methodOf at h ⊢
  split_ifs at h ⊢ with h₁ h₂ h₃ h₄ h₅
  · exact h₁.symm
  · exact h₂.symm
  · exact h₃.symm
  · exact h₄.symm
  · exact h₅.symm
  · exact absurd rfl h

section RequestLine

variable {r r' : HttpRequest} {line target text : Bytes}

theorem setTarget_eq (hquery : r.query = []) (target : Bytes) :
    r.setTarget target =
      { r with path := target.takeWhile (· ≠ 63), query := target.dropWhile (· ≠ 63) } := by
  have hfind : target.findIdx (fun a => !decide (a ≠ 63)) = target.idxOf 63 := by
    unfold List.idxOf
    congr 1
    funext a
    by_cases ha : a = 63 <;> simp [ha]
  rw [List.takeWhile_eq_take_findIdx_not, List.dropWhile_eq_drop_findIdx_not, hfind]
  dsimp only [setTarget]
  split_ifs with h
  · rfl
  · rw [not_not] at h
    rw [h, List.take_length, List.drop_length, ← hquery]

theorem setVersionText_text {v : Version} (hv : v ≠ .kUnknown) :
    r.setVersionText v.text = (true, { r with version := v }) := by
  cases v with
  | kUnknown => exact absurd rfl hv
  | kHttp10 => rfl
  | kHttp11 => rfl

theorem setVersionText_true (h : r.setVersionText text = (true, r')) :
    ∃ v : Version, v ≠ .kUnknown ∧ text = v.text := by
  unfold setVersionText at h
  split_ifs at h with htext h₁ h₀
  · refine ⟨.kHttp11, by decide, ?_⟩
    rw [← List.take_append_drop 7 text, htext.2, h₁]
    rfl
  · refine ⟨.kHttp10, by decide, ?_⟩
    rw [← List.take_append_drop 7 text, htext.2, h₀]
    rfl
  all_goals simp at h

theorem setVersionText_method (r : HttpRequest) (text : Bytes) :
    (r.setVersionText text).2.method = r.method := by
  unfold setVersionText
  split_ifs <;> rfl

theorem setTarget_method (r : HttpRequest) (target : Bytes) :
    (r.setTarget target).method = r.method := by
  dsimp only [setTarget]
  split_ifs <;> rfl

theorem setTargetAndVersion_method (r : HttpRequest) (text : Bytes) :
    (r.setTargetAndVersion text).2.method = r.method := by
  dsimp only [setTargetAndVersion]
  split_ifs
  · rw [setVersionText_method, setTarget_method]
  · rfl

theorem setTargetAndVersion_text (hquery : r.query = []) (hblank : 32 ∉ target) {v : Version}
    (hv : v ≠ .kUnknown) :
    r.setTargetAndVersion (target ++ 32 :: v.text) =
      (true, { r with
        version := v
        path := target.takeWhile (· ≠ 63)
        query := target.dropWhile (· ≠ 63) }) := by
  have hspace := idxOf_append_cons hblank v.text
  unfold setTargetAndVersion
  rw [hspace, if_pos (by simp), List.take_left, ← List.drop_drop, List.drop_left,
    List.drop_one, List.tail_cons, setVersionText_text hv, setTarget_eq hquery]

theorem setTargetAndVersion_true (h : r.setTargetAndVersion text = (true, r')) :
    ∃ target v, 32 ∉ target ∧ v ≠ .kUnknown ∧ text = target ++ 32 :: Version.text v := by
  dsimp only [setTargetAndVersion] at h
  split_ifs at h with hspace
  · obtain ⟨hcut, hblank⟩ := eq_take_cons_drop hspace
    obtain ⟨v, hv, hversion⟩ := setVersionText_true h
    rw [hversion] at hcut
    exact ⟨_, v, hblank, hv, hcut⟩
  · simp at h

theorem processRequestLine_known (hr : r.method = .kInvalid) {m : Method} (hm : m ≠ .kInvalid)
    (rest : Bytes) :
    r.processRequestLine (m.methodString ++ 32 :: rest) =
      .ok (setTargetAndVersion { r with method := m } rest) := by
  have hspace := idxOf_append_cons (methodString_blank m) rest
  unfold processRequestLine setMethod
  rw [hspace, if_pos (by simp), List.take_left, ← List.drop_drop, List.drop_left,
    List.drop_one, List.tail_cons, assertThat_pos hr, methodOf_methodString hm]
  simp [hm]

theorem processRequestLine_unknown (hr : r.method = .kInvalid)
    (hline : ¬ ∃ m rest, m ≠ .kInvalid ∧ line = Method.methodString m ++ 32 :: rest) :
    r.processRequestLine line = .ok (false, r) := by
  dsimp only [processRequestLine, setMethod]
  rw [assertThat_pos hr]
  split_ifs with hspace
  · obtain ⟨hcut, -⟩ := eq_take_cons_drop hspace
    have hm : methodOf (line.take (line.idxOf 32)) = .kInvalid := by
      by_contra hm
      apply hline
      refine ⟨_, line.drop (line.idxOf 32 + 1), hm, ?_⟩
      rwa [methodString_methodOf hm]
    simp [hm, ← hr]
  · rfl

theorem processRequestLine_text (l : RequestLine) :
    init.processRequestLine l.text = .ok (true, l.request) := by
  unfold RequestLine.text
  rw [processRequestLine_known rfl l.method_known,
    setTargetAndVersion_text rfl l.target_blank l.version_known]
  rfl

theorem processRequestLine_good (h : init.processRequestLine line = .ok (true, r')) :
    ∃ l : RequestLine, line = l.text := by
  by_cases hline : ∃ m rest, m ≠ .kInvalid ∧ line = Method.methodString m ++ 32 :: rest
  · obtain ⟨m, rest, hm, rfl⟩ := hline
    rw [processRequestLine_known rfl hm] at h
    obtain ⟨target, v, hblank, hv, rfl⟩ := setTargetAndVersion_true (Except.ok.inj h)
    exact ⟨⟨m, target, v, hm, hv, hblank⟩, rfl⟩
  · rw [processRequestLine_unknown rfl hline] at h
    simp at h

/-- Exactly the request lines are accepted. The fields are then what is written in
the line, with the target cut in front of its first question mark, and the line can
be rebuilt from them. -/
theorem processRequestLine_grammar (line : Bytes) :
    ∃ ok r, init.processRequestLine line = .ok (ok, r) ∧
      (ok = true ↔ ∃ l : RequestLine, line = l.text) ∧
      (ok = true → 63 ∉ r.path ∧ (r.query = [] ∨ r.query.head? = some 63) ∧
        line = r.method.methodString ++ 32 :: (r.path ++ r.query ++ 32 :: r.version.text)) ∧
      ∀ l : RequestLine, line = l.text →
        r.path ++ r.query = l.target ∧ r.method = l.method ∧ r.version = l.version := by
  by_cases hline : ∃ l : RequestLine, line = l.text
  · obtain ⟨l, rfl⟩ := hline
    refine ⟨true, l.request, processRequestLine_text l, iff_of_true rfl ⟨l, rfl⟩,
      fun _ => ⟨l.path_mark, l.query_mark, ?_⟩, fun l' hl' => ?_⟩
    · rw [l.path_append_query]
      rfl
    · have hrequest : l'.request = l.request := by
        have h := processRequestLine_text l'
        rw [← hl', processRequestLine_text l] at h
        exact (congrArg Prod.snd (Except.ok.inj h)).symm
      rw [← hrequest]
      exact ⟨l'.path_append_query, rfl, rfl⟩
  · obtain ⟨⟨ok, r⟩, hprocess⟩ := HttpContext.processRequestLine_returns
      (show init.method = .kInvalid from rfl) line
    have hok : ok ≠ true := by
      rintro rfl
      exact hline (processRequestLine_good hprocess)
    exact ⟨ok, r, hprocess, iff_of_false hok hline, fun h => absurd h hok,
      fun l hl => absurd ⟨l, hl⟩ hline⟩

end RequestLine

end HttpRequest

namespace HttpContext

variable {receiveTime : Timestamp} {request : HttpRequest}

theorem findPair_crlf {line : Bytes} (h : findPair 13 10 line = none) (more : Bytes) :
    findPair 13 10 (line ++ crlf ++ more) = some line.length := by
  rw [List.append_assoc]
  exact findPair_line (by decide) h more

theorem take_line (line more : Bytes) : (line ++ crlf ++ more).take line.length = line := by
  rw [List.append_assoc, List.take_left]

theorem drop_line (line more : Bytes) : (line ++ crlf ++ more).drop (line.length + 2) = more := by
  have : (line ++ crlf).length = line.length + 2 := by simp [crlf]
  rw [← this, List.drop_left]

theorem verdict_header_line {h : Bytes} (hwhole : findPair 13 10 h = none) (hcolon : 58 ∈ h)
    (more : Bytes) :
    verdict receiveTime (⟨.kExpectHeaders, request⟩, .ok true) (h ++ crlf ++ more) =
      .next (⟨.kExpectHeaders, request.addHeader h (h.idxOf 58)⟩, .ok true) (h.length + 2) [] := by
  have hlt := List.idxOf_lt_length_iff.mpr hcolon
  rw [verdict_header rfl (findPair_crlf hwhole more), take_line, judgeHeader, if_pos (by omega)]

theorem drain_headers_until (headers : List Bytes) (request : HttpRequest)
    (hwhole : ∀ h ∈ headers, findPair 13 10 h = none) (hcolon : ∀ h ∈ headers, 58 ∈ h)
    {last : Bytes} (hlast : findPair 13 10 last = none) (hcolonless : 58 ∉ last) (more : Bytes) :
    (parser receiveTime).drain (⟨.kExpectHeaders, request⟩, .ok true)
        ((headers.map (· ++ crlf)).flatten ++ (last ++ crlf) ++ more) =
      ⟨(⟨.kGotAll, headers.foldl (fun request h => request.addHeader h (h.idxOf 58)) request⟩,
        .ok true), more, [], true⟩ := by
  induction headers generalizing request with
  | nil =>
    have hidx : last.idxOf 58 = last.length := List.idxOf_eq_length_iff.mpr hcolonless
    have hstep : (parser receiveTime).step (⟨.kExpectHeaders, request⟩, .ok true)
        (last ++ crlf ++ more) = .halt (⟨.kGotAll, request⟩, .ok true) (last.length + 2) [] := by
      show verdict receiveTime _ _ = _
      rw [verdict_header rfl (findPair_crlf hlast more), take_line, judgeHeader,
        if_neg (by simp [hidx])]
    rw [List.map_nil, List.flatten_nil, List.nil_append, Parser.drain_halt hstep, drop_line]
    rfl
  | cons h headers ih =>
    have hassoc : ((h :: headers).map (· ++ crlf)).flatten ++ (last ++ crlf) ++ more =
        h ++ crlf ++ ((headers.map (· ++ crlf)).flatten ++ (last ++ crlf) ++ more) := by
      simp
    have hstep : (parser receiveTime).step (⟨.kExpectHeaders, request⟩, .ok true)
        (h ++ crlf ++ ((headers.map (· ++ crlf)).flatten ++ (last ++ crlf) ++ more)) = _ :=
      verdict_header_line (hwhole h (by simp)) (hcolon h (by simp)) _
    rw [hassoc, Parser.drain_next hstep, drop_line,
      ih _ (fun g hg => hwhole g (by simp [hg])) (fun g hg => hcolon g (by simp [hg]))]
    rfl

theorem drain_headers (headers : List Bytes) (request : HttpRequest)
    (hwhole : ∀ h ∈ headers, findPair 13 10 h = none) (hcolon : ∀ h ∈ headers, 58 ∈ h)
    (more : Bytes) :
    (parser receiveTime).drain (⟨.kExpectHeaders, request⟩, .ok true)
        ((headers.map (· ++ crlf)).flatten ++ crlf ++ more) =
      ⟨(⟨.kGotAll, headers.foldl (fun request h => request.addHeader h (h.idxOf 58)) request⟩,
        .ok true), more, [], true⟩ :=
  drain_headers_until headers request hwhole hcolon (show findPair 13 10 [] = none from rfl)
    (by simp) more

theorem reading_line {line : RequestLine} (hwhole : findPair 13 10 line.text = none)
    (more : Bytes) :
    reading (line.text ++ crlf ++ more) =
      (parser Timestamp.invalid).drain (⟨.kExpectHeaders, line.request⟩, .ok true) more := by
  have hstep : (parser Timestamp.invalid).step (init, .ok true) (line.text ++ crlf ++ more) =
      .next (⟨.kExpectHeaders, line.request⟩, .ok true) (line.text.length + 2) [] := by
    show verdict Timestamp.invalid (init, .ok true) _ = _
    rw [verdict_requestLine rfl (findPair_crlf hwhole _), take_line, judgeRequestLine]
    simp only [init, HttpRequest.processRequestLine_text]
    rfl
  rw [reading, Parser.drain_next hstep, drop_line]
  rfl

theorem reading_request (r : RequestText) (more : Bytes) :
    reading (r.bytes ++ more) = ⟨(⟨.kGotAll, r.request⟩, .ok true), more, [], true⟩ := by
  have hassoc : r.bytes ++ more =
      r.line.text ++ crlf ++ ((r.headers.map (· ++ crlf)).flatten ++ crlf ++ more) := by
    simp [RequestText.bytes]
  rw [hassoc, reading_line r.line_whole, drain_headers _ _ r.header_whole r.header_colon]
  rfl

theorem reading_start {r : RequestText} {bytes more : Bytes} (h : r.bytes = bytes ++ more)
    (hmore : more ≠ []) : (reading bytes).halted = false := by
  by_contra hhalt
  rw [Bool.not_eq_false] at hhalt
  have hwhole := Parser.drain_append_of_halted hhalt more
  have hrequest := reading_request r []
  rw [List.append_nil, h, reading, hwhole] at hrequest
  have hrest := congrArg Progress.rest hrequest
  exact hmore (List.append_eq_nil_iff.mp hrest).2

end HttpContext

end Muduo
