import Muduo.Foundations.OrderedMap
import Muduo.Http.BadRequest

/-!
# Where the headers end

A header section should end at an empty line. The parser ends it at the first line
without a colon, and takes that line away whether it is empty or not. The two agree
on a request exactly when its first line without a colon is the empty one, and then
the parser has read the prefix up to there and the last value of each field.
-/

namespace Muduo

open Foundations HttpContext

def lines (ls : List Bytes) : Bytes := (ls.map (· ++ crlf)).flatten

/-- The bytes start with a request line and the lines behind it, of which `last`
is the last one. -/
structure Begins (bytes : Bytes) (line : RequestLine) (headers : List Bytes) (last more : Bytes) :
    Prop where
  bytes_eq : bytes = line.text ++ crlf ++ (lines (headers ++ [last]) ++ more)
  line_whole : findPair 13 10 line.text = none
  headers_whole : ∀ h ∈ headers ++ [last], findPair 13 10 h = none

/-- A request line, lines that are not empty, and an empty line. -/
def WellFormed (bytes : Bytes) (line : RequestLine) (headers : List Bytes) (more : Bytes) : Prop :=
  Begins bytes line headers [] more ∧ ∀ h ∈ headers, h ≠ []

/-- The first line without a colon behind a request line is empty. -/
def Regular (bytes : Bytes) : Prop :=
  ∀ line headers last more, Begins bytes line headers last more →
    (∀ h ∈ headers, 58 ∈ h) → 58 ∉ last → last = []

def headerField (h : Bytes) : Option (Bytes × Bytes) :=
  if 58 ∈ h then some (h.take (h.idxOf 58), HttpRequest.trim (h.drop (h.idxOf 58 + 1))) else none

def lastValue (field : Bytes) (headers : List Bytes) : Option Bytes :=
  (headers.filterMap headerField).reverse.lookup field

theorem mapSet_eq_assignEntry (key value : Bytes) (entries : List (Bytes × Bytes)) :
    mapSet key value entries = OrderedMap.assignEntry key value entries := by
  induction entries with
  | nil => rfl
  | cons entry entries ih => rw [mapSet, OrderedMap.assignEntry, ih]

theorem lookup_mapSet (key value field : Bytes) (entries : List (Bytes × Bytes)) :
    (mapSet key value entries).lookup field =
      if field = key then some value else entries.lookup field := by
  rw [mapSet_eq_assignEntry, OrderedMap.lookup_assignEntry]

theorem lookup_addHeaders (field : Bytes) (headers : List Bytes) (hcolon : ∀ h ∈ headers, 58 ∈ h)
    (request : HttpRequest) :
    (headers.foldl (fun request h => request.addHeader h (h.idxOf 58)) request).headers.lookup
        field = (lastValue field headers).or (request.headers.lookup field) := by
  induction headers generalizing request with
  | nil => rfl
  | cons h headers ih =>
    have hfield : headerField h =
        some (h.take (h.idxOf 58), HttpRequest.trim (h.drop (h.idxOf 58 + 1))) :=
      if_pos (hcolon h (by simp))
    rw [List.foldl_cons, ih (fun g hg => hcolon g (by simp [hg])), HttpRequest.addHeader,
      lookup_mapSet]
    simp only [lastValue, List.filterMap_cons, hfield, List.reverse_cons, List.lookup_append,
      lookup_cons_eq, List.lookup_nil, Option.or_assoc]
    congr 1
    split_ifs <;> rfl

@[simp] theorem lines_nil : lines [] = [] := rfl

@[simp] theorem lines_append (ls ms : List Bytes) : lines (ls ++ ms) = lines ls ++ lines ms := by
  simp [lines]

@[simp] theorem lines_cons (l : Bytes) (ls : List Bytes) :
    lines (l :: ls) = l ++ crlf ++ lines ls :=
  rfl

/-- The first line of two texts that start with a line is the same. -/
theorem line_inj {l l' more more' : Bytes} (hl : findPair 13 10 l = none)
    (hl' : findPair 13 10 l' = none) (h : l ++ crlf ++ more = l' ++ crlf ++ more') :
    l = l' ∧ more = more' := by
  have hlen : some l.length = some l'.length := by
    rw [← findPair_crlf hl more, h, findPair_crlf hl' more']
  have htake := take_line l more
  have hdrop := drop_line l more
  rw [h, Option.some.inj hlen] at htake hdrop
  rw [take_line] at htake
  rw [drop_line] at hdrop
  exact ⟨htake.symm, hdrop.symm⟩

/-- Of two ways to read a text as lines, one goes on where the other stops. -/
theorem lines_comparable {ls ms : List Bytes} {more more' : Bytes}
    (hls : ∀ l ∈ ls, findPair 13 10 l = none) (hms : ∀ m ∈ ms, findPair 13 10 m = none)
    (h : lines ls ++ more = lines ms ++ more') : ls <+: ms ∨ ms <+: ls := by
  induction ls generalizing ms with
  | nil => exact .inl List.nil_prefix
  | cons l ls ih =>
    cases ms with
    | nil => exact .inr List.nil_prefix
    | cons m ms =>
      rw [lines_cons, lines_cons, List.append_assoc, List.append_assoc (m ++ crlf)] at h
      obtain ⟨rfl, hrest⟩ := line_inj (hls l (by simp)) (hms m (by simp)) h
      have := ih (fun l hl => hls l (by simp [hl])) (fun m hm => hms m (by simp [hm])) hrest
      simpa [List.cons_prefix_cons] using this

theorem eq_nil_of_lines {ls : List Bytes} (h : lines ls = []) : ls = [] := by
  cases ls with
  | nil => rfl
  | cons l ls => simp [crlf] at h

theorem lines_inj {ls ms : List Bytes} {more : Bytes} (hls : ∀ l ∈ ls, findPair 13 10 l = none)
    (hms : ∀ m ∈ ms, findPair 13 10 m = none) (h : lines ls ++ more = lines ms ++ more) :
    ls = ms := by
  have h : lines ls = lines ms := List.append_cancel_right h
  rcases lines_comparable hls hms (congrArg (· ++ []) h) with ⟨t, rfl⟩ | ⟨t, rfl⟩
  · have ht : lines t = [] := by simpa using h
    rw [eq_nil_of_lines ht, List.append_nil]
  · have ht : lines t = [] := by simpa using h
    rw [eq_nil_of_lines ht, List.append_nil]

/-- The first line of a kind ends the same lines in every reading. -/
theorem first_unique {P : Bytes → Prop} {ls ms : List Bytes} {l m : Bytes}
    (h : ls ++ [l] <+: ms ++ [m]) (hl : P l) (hms : ∀ m ∈ ms, ¬ P m) : ls = ms ∧ l = m := by
  rcases List.prefix_concat_iff.mp h with heq | hstart
  · exact List.append_singleton_inj.mp heq
  · exact absurd hl (hms l (hstart.subset (by simp)))

namespace Begins

variable {bytes more more' last last' : Bytes} {line line' : RequestLine}
  {headers headers' : List Bytes}

theorem lines_eq (h : Begins bytes line headers last more)
    (h' : Begins bytes line' headers' last' more') :
    lines (headers ++ [last]) ++ more = lines (headers' ++ [last']) ++ more' :=
  (line_inj h.line_whole h'.line_whole (h.bytes_eq.symm.trans h'.bytes_eq)).2

/-- The lines up to the first one of a kind are determined by the bytes. -/
theorem unique {P : Bytes → Prop} (h : Begins bytes line headers last more)
    (h' : Begins bytes line' headers' last' more') (hlast : P last) (hlast' : P last')
    (hheaders : ∀ g ∈ headers, ¬ P g) (hheaders' : ∀ g ∈ headers', ¬ P g) :
    headers = headers' ∧ more = more' := by
  have hlines := h.lines_eq h'
  obtain ⟨rfl, rfl⟩ : headers = headers' ∧ last = last' := by
    rcases lines_comparable h.headers_whole h'.headers_whole hlines with hstart | hstart
    · exact first_unique hstart hlast hheaders'
    · obtain ⟨h₁, h₂⟩ := first_unique hstart hlast' hheaders
      exact ⟨h₁.symm, h₂.symm⟩
  exact ⟨rfl, List.append_cancel_left hlines⟩

/-- The lines can be read up to the first one without a colon. -/
theorem colonless (h : Begins bytes line headers last more) (hlast : 58 ∉ last) :
    ∃ headers' last' more', Begins bytes line headers' last' more' ∧ (∀ g ∈ headers', 58 ∈ g) ∧
      58 ∉ last' := by
  obtain ⟨first, hfirst⟩ : ∃ first, (headers ++ [last]).find? (fun g => 58 ∉ g) = some first := by
    rw [← Option.isSome_iff_exists, List.find?_isSome]
    exact ⟨last, by simp, by simpa using hlast⟩
  obtain ⟨hcolon, headers', rest, hsplit, hheaders'⟩ := List.find?_eq_some_iff_append.mp hfirst
  refine ⟨headers', first, lines rest ++ more, ⟨?_, h.line_whole, ?_⟩, ?_, ?_⟩
  · rw [h.bytes_eq, hsplit]
    simp
  · intro g hg
    apply h.headers_whole
    rw [hsplit]
    simp only [List.mem_append, List.mem_cons] at hg ⊢
    tauto
  · intro g hg
    simpa using hheaders' g hg
  · simpa using hcolon

end Begins

namespace HttpContext

variable {bytes more last : Bytes} {line : RequestLine} {headers : List Bytes}

theorem eq_of_takeLine {l : Bytes} (h : takeLine bytes = some (l, more)) :
    bytes = l ++ crlf ++ more ∧ findPair 13 10 l = none := by
  obtain ⟨n, hn, rfl, -, rfl⟩ := takeLine_eq_some h
  obtain ⟨hcut, hnone⟩ := findPair_cut hn
  refine ⟨?_, hnone⟩
  rw [List.append_assoc]
  exact hcut

theorem afterHeaders_begins {fuel : ℕ} (h : afterHeaders fuel bytes = some more) :
    ∃ headers last, bytes = lines (headers ++ [last]) ++ more ∧
      (∀ g ∈ headers ++ [last], findPair 13 10 g = none) ∧ (∀ g ∈ headers, 58 ∈ g) ∧ 58 ∉ last := by
  induction fuel generalizing bytes with
  | zero => cases h
  | succ fuel ih =>
    rw [afterHeaders, Option.bind_eq_bind, Option.bind_eq_some_iff] at h
    obtain ⟨⟨l, rest⟩, hline, h⟩ := h
    obtain ⟨rfl, hwhole⟩ := eq_of_takeLine hline
    dsimp only at h
    split_ifs at h with hcolon
    · obtain ⟨headers, last, rfl, hheaders, hcolons, hlast⟩ := ih h
      refine ⟨l :: headers, last, by simp, ?_, ?_, hlast⟩
      · intro g hg
        rcases List.mem_cons.mp hg with rfl | hg
        · exact hwhole
        · exact hheaders g hg
      · intro g hg
        rcases List.mem_cons.mp hg with rfl | hg
        · exact hcolon
        · exact hcolons g hg
    · cases h
      exact ⟨[], l, by simp [lines], by simpa using hwhole, by simp, hcolon⟩

/-- The lines with a colon are read, and the line without one ends the request. -/
theorem reading_begins (h : Begins bytes line headers last more) (hcolon : ∀ g ∈ headers, 58 ∈ g)
    (hlast : 58 ∉ last) :
    reading bytes =
      ⟨(⟨.kGotAll, headers.foldl (fun request h => request.addHeader h (h.idxOf 58)) line.request⟩,
        .ok true), more, [], true⟩ := by
  have hwhole : ∀ g ∈ headers, findPair 13 10 g = none :=
    fun g hg => h.headers_whole g (by simp [hg])
  have hlines : lines (headers ++ [last]) ++ more = lines headers ++ (last ++ crlf) ++ more := by
    simp
  rw [h.bytes_eq, reading_line h.line_whole, hlines]
  exact drain_headers_until headers line.request hwhole hcolon
    (h.headers_whole last (by simp)) hlast more

theorem begins_of_gotAll (h : (reading bytes).state.1.state = .kGotAll) :
    ∃ line headers last more, Begins bytes line headers last more ∧ (∀ g ∈ headers, 58 ∈ g) ∧
      58 ∉ last := by
  have hsettled := reading_settled bytes
  cases hline : takeLine bytes with
  | none =>
    have hstep : (parser Timestamp.invalid).step (init, .ok true) bytes = .wait :=
      verdict_wait (.inl rfl) (takeLine_eq_none hline)
    rw [reading, Parser.drain_wait hstep] at h
    cases h
  | some cut =>
    obtain ⟨l, rest⟩ := cut
    obtain ⟨hbytes, hwhole⟩ := eq_of_takeLine hline
    by_cases hgood : IsRequestLine l
    · obtain ⟨line, rfl⟩ := hgood
      obtain ⟨-, hhalted, -⟩ := drain_afterHeaders (rest.length + 1) line.request
        (Nat.lt_succ_self rest.length)
      rw [← reading_line hwhole, ← hbytes] at hhalted
      cases hafter : afterHeaders (rest.length + 1) rest with
      | none =>
        rw [hafter] at hhalted
        simp only [Settled, hhalted] at hsettled
        exact absurd h hsettled.2
      | some more =>
        obtain ⟨headers, last, rfl, hheaders, hcolon, hlast⟩ := afterHeaders_begins hafter
        exact ⟨line, headers, last, more, ⟨hbytes, hwhole, hheaders⟩, hcolon, hlast⟩
    · obtain ⟨⟨ok, request⟩, hprocess⟩ := processRequestLine_returns
        (show HttpRequest.init.method = .kInvalid from rfl) l
      cases ok with
      | true => exact absurd (HttpRequest.processRequestLine_good hprocess) hgood
      | false =>
        rw [reading_bad hline hprocess] at h
        cases h

theorem parseRequest_init (buf : Buffer) (receiveTime : Timestamp) :
    ∃ ok c buf', init.parseRequest buf receiveTime = .ok (ok, c, buf') ∧
      (reading buf.contents).state = (c.untimed, .ok ok) ∧
      (reading buf.contents).rest = buf'.contents := by
  have hempty : (HttpServer.start ()).input.contents = [] := Buffer.contents_ofSize _
  have hinput : buf.contents = (HttpServer.start ()).input.contents ++ buf.contents := by
    rw [hempty, List.nil_append]
  exact HttpSession.parse_pending (HttpServer.start_resumes ()) hinput receiveTime

theorem reading_regular (hregular : Regular bytes)
    (h : (reading bytes).state.1.state = .kGotAll) :
    ∃ line headers more, WellFormed bytes line headers more ∧
      reading bytes =
        ⟨(⟨.kGotAll,
          headers.foldl (fun request h => request.addHeader h (h.idxOf 58)) line.request⟩,
          .ok true), more, [], true⟩ ∧
      ∀ g ∈ headers, 58 ∈ g := by
  obtain ⟨line, headers, last, more, hbegins, hcolon, hlast⟩ := begins_of_gotAll h
  have hreading := reading_begins hbegins hcolon hlast
  cases hregular line headers last more hbegins hcolon hlast
  refine ⟨line, headers, more, ⟨hbegins, ?_⟩, hreading, hcolon⟩
  rintro g hg rfl
  simpa using hcolon [] hg

theorem gotAll_of_wellFormed (h : WellFormed bytes line headers more) :
    (reading bytes).state.1.state = .kGotAll := by
  obtain ⟨headers', last', more', hbegins, hcolon, hlast⟩ := h.1.colonless (by simp)
  rw [reading_begins hbegins hcolon hlast]

/-- A request ends at the first empty line behind its request line, and not
earlier, with everything up to there taken from the input and the last value of
each field in the headers: this holds of a text exactly if its first line without
a colon is empty. -/
theorem headers_end_at_empty_line_iff (buf : Buffer) (receiveTime : Timestamp) :
    ∃ ok c buf', init.parseRequest buf receiveTime = .ok (ok, c, buf') ∧
      (((c.state = .kGotAll ↔ ∃ line headers more, WellFormed buf.contents line headers more) ∧
        (c.state = .kGotAll → ∀ line headers more, WellFormed buf.contents line headers more →
          buf'.contents = more ∧
          ∀ field, c.request.headers.lookup field = lastValue field headers)) ↔
      Regular buf.contents) := by
  obtain ⟨ok, c, buf', hparse, hstate, hrest⟩ := parseRequest_init buf receiveTime
  have hc : (reading buf.contents).state.1 = c.untimed := congrArg Prod.fst hstate
  have hgot : (reading buf.contents).state.1.state = c.state := by rw [hc]; rfl
  refine ⟨ok, c, buf', hparse, ?_, ?_⟩
  · rintro ⟨hiff, hfields⟩ line headers last more hbegins hcolon hlast
    have hreading := reading_begins hbegins hcolon hlast
    have hall : c.state = .kGotAll := by rw [← hgot, hreading]
    obtain ⟨line', headers', more', hwell⟩ := hiff.mp hall
    have hmore : more' = more := by
      rw [← (hfields hall line' headers' more' hwell).1, ← hrest, hreading]
    have hlines := hbegins.lines_eq hwell.1
    rw [hmore] at hlines
    have := lines_inj hbegins.headers_whole hwell.1.headers_whole hlines
    exact (List.append_singleton_inj.mp this).2
  · intro hregular
    refine ⟨⟨fun hall => ?_, ?_⟩, fun hall line headers more hwell => ?_⟩
    · obtain ⟨line, headers, more, hwell, -⟩ := reading_regular hregular (hgot.trans hall)
      exact ⟨line, headers, more, hwell⟩
    · rintro ⟨line, headers, more, hwell⟩
      exact hgot.symm.trans (gotAll_of_wellFormed hwell)
    · obtain ⟨line', headers', more', hwell', hreading, hcolon⟩ :=
        reading_regular hregular (hgot.trans hall)
      obtain ⟨rfl, rfl⟩ := hwell'.1.unique hwell.1 (P := (· = [])) rfl rfl hwell'.2 hwell.2
      refine ⟨by rw [← hrest, hreading], fun field => ?_⟩
      have hheaders : c.request.headers = (reading buf.contents).state.1.request.headers := by
        rw [hc]
        rfl
      rw [hheaders, hreading, lookup_addHeaders field headers' hcolon]
      exact Option.or_none

theorem not_wellFormed_of_one_line (h : Begins bytes line [] last []) (hlast : last ≠ []) :
    ¬ ∃ line' headers more, WellFormed bytes line' headers more := by
  rintro ⟨line', headers, more, hbegins, -⟩
  have hlines := h.lines_eq hbegins
  cases headers with
  | nil =>
    obtain ⟨hlast', -⟩ := line_inj (h.headers_whole last (by simp)) rfl
      (show last ++ crlf ++ [] = [] ++ crlf ++ more by simpa using hlines)
    exact hlast hlast'
  | cons g headers =>
    have hcut : last ++ crlf ++ [] = g ++ crlf ++ (lines (headers ++ [[]]) ++ more) := by
      simpa using hlines
    obtain ⟨-, hnil⟩ := line_inj (h.headers_whole last (by simp))
      (hbegins.headers_whole g (by simp)) hcut
    simp [crlf] at hnil

/-- A request line and one line without a colon are taken for a whole request. -/
theorem line_without_colon_ends_headers :
    let buf : Buffer :=
      { buffer := List.replicate 8 0 ++ ascii "GET / HTTP/1.1\r\nfoo\r\n"
        readerIndex := 8
        writerIndex := 29
        reader_le := by decide
        writer_le := by decide
        prepend_le := by decide }
    (∃ c buf', init.parseRequest buf 7 = .ok (true, c, buf') ∧ c.state = .kGotAll) ∧
      ¬ ∃ line headers more, WellFormed buf.contents line headers more := by
  intro buf
  have hgot : (init.parseRequest buf 7).toOption.map (fun p => (p.1, p.2.1.state)) =
      some (true, .kGotAll) := by
    decide +kernel
  have hbegins : Begins buf.contents ⟨.kGet, ascii "/", .kHttp11, by decide, by decide, by decide⟩
      [] (ascii "foo") [] :=
    ⟨by decide, by decide, by decide⟩
  obtain ⟨⟨ok, c, buf'⟩, hparse, hstate⟩ := exists_ok_of_map hgot
  obtain ⟨rfl, hstate⟩ := Prod.mk.inj hstate
  exact ⟨⟨c, buf', hparse, hstate⟩, not_wellFormed_of_one_line hbegins (by decide)⟩

end HttpContext

end Muduo
