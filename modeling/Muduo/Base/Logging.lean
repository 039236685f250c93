import Muduo.Foundations.History
import Muduo.Base.Timestamp
import Muduo.Base.LogStream
import Muduo.Base.TimeZone

/-!
# Log records

A `Logger` writes a head, the values streamed into it and a trailer to a `LogStream`,
and its destructor hands the content on. Every piece that does not fit is left out, the
newline at the end too. The text of the last second is kept for the next record of the
same second; `setTimeZone` leaves it as it is.
-/

namespace Muduo

open Foundations

/-- `t_lastSecond`, and the string in `t_time`. -/
structure TimeCache where
  lastSecond : ℤ
  time : Bytes
  deriving DecidableEq, Repr

inductive LogLevel where
  | trace
  | debug
  | info
  | warn
  | error
  | fatal
  deriving DecidableEq, Repr

namespace Logger

/-- Variables of a thread start with zeros. -/
def emptyCache : TimeCache := ⟨0, []⟩

def logLevelName : LogLevel → Bytes
  | .trace => ascii "TRACE "
  | .debug => ascii "DEBUG "
  | .info => ascii "INFO  "
  | .warn => ascii "WARN  "
  | .error => ascii "ERROR "
  | .fatal => ascii "FATAL "

/-- The helper class for strings of known length. -/
def T (str : Bytes) (len : ℕ) : Except Fault LogValue := do
  assertThat (str.length = len)
  return .string str

/-- `"%4d%02d%02d %02d:%02d:%02d"`. -/
def dateTime (tm : Tm) : Bytes :=
  blankPadded 4 (tm.year + 1900) ++ zeroPadded 2 (tm.mon + 1) ++ zeroPadded 2 tm.mday ++
    ascii " " ++ zeroPadded 2 tm.hour ++ ascii ":" ++ zeroPadded 2 tm.min ++ ascii ":" ++
    zeroPadded 2 tm.sec

section Time

variable (clib : TimeZone.GmTime) (zone : TimeZone)

/-- The date and time of day in the zone that is set. -/
def zoneText (seconds : ℤ) : Except Fault Bytes :=
  if zone.valid then do
    let tm ← TimeZone.toLocalTime clib zone seconds
    return dateTime tm
  else return dateTime (clib.gmtime seconds)

/-- `".%06d "` or `".%06dZ "`. -/
def fraction (microseconds : ℤ) : Bytes :=
  ascii "." ++ zeroPadded 6 microseconds ++ if zone.valid then ascii " " else ascii "Z "

def seconds (time : Timestamp) : ℤ := time.tdiv Timestamp.kMicroSecondsPerSecond

def microseconds (time : Timestamp) : ℤ :=
  TimeZone.narrow (time.tmod Timestamp.kMicroSecondsPerSecond)

/-- The text is made anew for another second. -/
def refresh (cache : TimeCache) (seconds : ℤ) : Except Fault TimeCache :=
  if seconds ≠ cache.lastSecond then do
    let text ← zoneText clib zone seconds
    assertThat (text.length = 17)
    return ⟨seconds, text⟩
  else return cache

def formatTime (cache : TimeCache) (time : Timestamp) (stream : LogStream) :
    Except Fault (TimeCache × LogStream) := do
  let cache ← refresh clib zone cache (seconds time)
  let us := fraction zone (microseconds time)
  let len := if zone.valid then 8 else 9
  assertThat (us.length = len)
  let text ← T cache.time 17
  let us ← T us len
  let stream ← stream.insertAll [text, us]
  return (cache, stream)

end Time

/-- `int`. -/
def int : IntegerType := ⟨true, 32, by decide⟩

/-- What the constructors of `Logger` are called with. The name of the function is given to
one of them. -/
structure LogCall where
  file : Bytes
  line : ℤ
  level : LogLevel
  savedErrno : ℤ
  func : Option Bytes
  line_holds : int.Holds line
  errno_holds : int.Holds savedErrno

/-- `tidString()` and `strerror_tl` of the thread. -/
structure LogThread where
  tid : ℤ
  strerror : ℤ → Bytes

/-- `"%5d "`. -/
def LogThread.tidString (thread : LogThread) : Bytes := blankPadded 5 thread.tid ++ ascii " "

namespace LogCall

/-- `Logger(file, line)`. -/
def ofLine (file : Bytes) (line : ℤ) (h : int.Holds line) : LogCall :=
  ⟨file, line, .info, 0, none, h, by decide⟩

/-- `Logger(file, line, level)`. -/
def ofLevel (file : Bytes) (line : ℤ) (h : int.Holds line) (level : LogLevel) : LogCall :=
  ⟨file, line, level, 0, none, h, by decide⟩

/-- `Logger(file, line, level, func)`. -/
def ofFunc (file : Bytes) (line : ℤ) (h : int.Holds line) (level : LogLevel) (func : Bytes) :
    LogCall :=
  ⟨file, line, level, 0, some func, h, by decide⟩

/-- `Logger(file, line, toAbort)`. -/
def ofErrno (file : Bytes) (line : ℤ) (h : int.Holds line) (toAbort : Bool) (errno : ℤ)
    (herrno : int.Holds errno) : LogCall :=
  ⟨file, line, if toAbort then .fatal else .error, errno, none, h, herrno⟩

variable (call : LogCall) (thread : LogThread)

/-- `SourceFile`: the name behind the last slash. -/
def basename : Bytes := (call.file.reverse.takeWhile (· ≠ 47)).reverse

def errnoPieces : List LogValue :=
  if call.savedErrno ≠ 0 then
    [.cString (thread.strerror call.savedErrno), .cString (ascii " (errno="),
      .integer int call.savedErrno call.errno_holds, .cString (ascii ") ")]
  else []

def funcPieces : List LogValue :=
  match call.func with
  | some func => [.cString func, .char 32]
  | none => []

/-- What `finish` streams in front of the newline. -/
def trailer : List LogValue :=
  [.cString (ascii " - "), .string call.basename, .char 58, .integer int call.line call.line_holds]

end LogCall

section Records

variable (clib : TimeZone.GmTime) (zone : TimeZone) (thread : LogThread)

def construct (cache : TimeCache) (time : Timestamp) (call : LogCall) :
    Except Fault (TimeCache × LogStream) := do
  let (cache, stream) ← formatTime clib zone cache time .new
  let tid ← T thread.tidString thread.tidString.length
  let level ← T (logLevelName call.level) 6
  let stream ← stream.insertAll ([tid, level] ++ call.errnoPieces thread ++ call.funcPieces)
  return (cache, stream)

def finish (stream : LogStream) (call : LogCall) : Except Fault LogStream :=
  stream.insertAll (call.trailer ++ [.char 10])

/-- The life of a `Logger`, with what its destructor hands to `g_output`. -/
def emit (cache : TimeCache) (time : Timestamp) (call : LogCall) (values : List LogValue) :
    Except Fault (TimeCache × Bytes) := do
  let (cache, stream) ← construct clib zone thread cache time call
  let stream ← stream.insertAll values
  let stream ← finish stream call
  return (cache, stream.buffer.bytes)

/-- The pieces of a record between its time and its newline. -/
def pieces (call : LogCall) (values : List LogValue) : List LogValue :=
  [.string thread.tidString, .string (logLevelName call.level)] ++ call.errnoPieces thread ++
    call.funcPieces ++ values ++ call.trailer

theorem length_logLevelName (level : LogLevel) : (logLevelName level).length = 6 := by
  cases level <;> rfl

variable {clib zone} {cache cache' : TimeCache} {time : Timestamp} {stream : LogStream}

theorem T_of_length {str : Bytes} {len : ℕ} (h : str.length = len) :
    T str len = .ok (.string str) := by
  rw [T, assertThat_pos h, ok_bind, pure_eq_ok]

theorem T_eq_ok {str : Bytes} {len : ℕ} {v : LogValue} (h : T str len = .ok v) :
    str.length = len ∧ v = .string str := by
  obtain ⟨_, hlength, hv⟩ := bind_eq_ok.mp h
  cases hv
  exact ⟨of_assertThat hlength, rfl⟩

theorem insertAll_time {text us : Bytes} (htext : text.length = 17) (hus : us.length ≤ 9) :
    ∃ stream, LogStream.new.insertAll [.string text, .string us] = .ok stream ∧
      1 ≤ stream.buffer.avail ∧ stream.buffer.bytes = text ++ us := by
  obtain ⟨stream, hstream, hroom, hbytes⟩ :=
    LogStream.insertAll_fill [.string text, .string us] LogStream.avail_new
  refine ⟨stream, hstream, hroom, ?_⟩
  have hnew : LogStream.new.buffer.bytes = [] := rfl
  rw [hbytes, hnew, LogStream.fill_of_short]
  · simp [LogValue.text]
  · simp only [LogValue.text, LogStream.kMaxNumericSize, kSmallBuffer, List.flatMap_cons,
      List.flatMap_nil, List.length_append, List.length_nil]
    omega

theorem formatTime_of_refresh (hrefresh : refresh clib zone cache (seconds time) = .ok cache')
    (htime : cache'.time.length = 17)
    (hus : (fraction zone (microseconds time)).length = if zone.valid then 8 else 9) :
    ∃ stream, formatTime clib zone cache time .new = .ok (cache', stream) ∧
      stream.buffer.bytes = cache'.time ++ fraction zone (microseconds time) := by
  obtain ⟨stream, hstream, -, hbytes⟩ := insertAll_time htime
    (show (fraction zone (microseconds time)).length ≤ 9 by rw [hus]; split_ifs <;> omega)
  refine ⟨stream, ?_, hbytes⟩
  rw [formatTime, hrefresh, ok_bind]
  simp only [assertThat_pos hus, T_of_length htime, T_of_length hus, ok_bind, hstream, pure_eq_ok]

theorem formatTime_eq_ok (h : formatTime clib zone cache time .new = .ok (cache', stream)) :
    refresh clib zone cache (seconds time) = .ok cache' ∧ cache'.time.length = 17 ∧
      1 ≤ stream.buffer.avail ∧
      stream.buffer.bytes = cache'.time ++ fraction zone (microseconds time) := by
  obtain ⟨c, hrefresh, h⟩ := bind_eq_ok.mp h
  obtain ⟨_, hus, h⟩ := bind_eq_ok.mp h
  obtain ⟨text, htext, h⟩ := bind_eq_ok.mp h
  obtain ⟨us, hus', h⟩ := bind_eq_ok.mp h
  obtain ⟨s, hs, h⟩ := bind_eq_ok.mp h
  cases h
  obtain ⟨htime, rfl⟩ := T_eq_ok htext
  obtain ⟨hlength, rfl⟩ := T_eq_ok hus'
  obtain ⟨s', hs', hroom, hbytes⟩ := insertAll_time htime
    (show (fraction zone (microseconds time)).length ≤ 9 by rw [hlength]; split_ifs <;> omega)
  cases hs.symm.trans hs'
  exact ⟨hrefresh, htime, hroom, hbytes⟩

theorem emit_eq (h : formatTime clib zone cache time .new = .ok (cache', stream))
    (call : LogCall) (values : List LogValue) :
    (LogStream.fill stream.buffer.bytes (pieces thread call values)).length < kSmallBuffer ∧
    emit clib zone thread cache time call values = .ok (cache',
      (LogValue.char 10).addTo
        (LogStream.fill stream.buffer.bytes (pieces thread call values))) := by
  obtain ⟨-, -, hroom, -⟩ := formatTime_eq_ok h
  obtain ⟨s₁, hs₁, hroom₁, hbytes₁⟩ := LogStream.insertAll_fill
    ([.string thread.tidString, .string (logLevelName call.level)] ++ call.errnoPieces thread ++
      call.funcPieces) hroom
  obtain ⟨s₂, hs₂, hroom₂, hbytes₂⟩ := LogStream.insertAll_fill values hroom₁
  obtain ⟨s₃, hs₃, hroom₃, hbytes₃⟩ := LogStream.insertAll_fill call.trailer hroom₂
  obtain ⟨s₄, hs₄, -, hbytes₄⟩ := LogStream.insertAll_fill (call.trailer ++ [.char 10]) hroom₂
  have hfill : LogStream.fill stream.buffer.bytes (pieces thread call values) =
      s₃.buffer.bytes := by
    rw [pieces, LogStream.fill_append, LogStream.fill_append, ← hbytes₁, ← hbytes₂, ← hbytes₃]
  have hconstruct : construct clib zone thread cache time call = .ok (cache', s₁) := by
    rw [construct, h, ok_bind]
    simp only [T_of_length rfl, T_of_length (length_logLevelName call.level), ok_bind, hs₁,
      pure_eq_ok]
  constructor
  · rw [hfill, FixedBuffer.length_bytes]
    unfold FixedBuffer.avail at hroom₃
    omega
  · rw [emit, hconstruct, ok_bind]
    simp only [hs₂, ok_bind, finish, hs₄, pure_eq_ok, hbytes₄]
    rw [hfill, hbytes₃, LogStream.fill_append, LogStream.fill_singleton]

/-- A record ends with a newline exactly if its content in front of it leaves more than the
last byte of the buffer, or ends with a newline of its own. A record that is short enough
is complete. -/
theorem record_is_line_iff (h : formatTime clib zone cache time .new = .ok (cache', stream))
    (call : LogCall) (values : List LogValue) :
    ∃ out, emit clib zone thread cache time call values = .ok (cache', out) ∧
      (out.getLast? = some 10 ↔
        (LogStream.fill stream.buffer.bytes (pieces thread call values)).length ≠ 3999 ∨
        (LogStream.fill stream.buffer.bytes (pieces thread call values)).getLast? = some 10) ∧
      (stream.buffer.bytes.length + ((pieces thread call values).flatMap LogValue.text).length ≤
          3968 →
        out =
          stream.buffer.bytes ++ (pieces thread call values).flatMap LogValue.text ++ [10]) := by
  obtain ⟨hlength, hemit⟩ := emit_eq thread h call values
  refine ⟨_, hemit, ?_, ?_⟩
  · generalize LogStream.fill stream.buffer.bytes (pieces thread call values) = content at hlength
    unfold kSmallBuffer at hlength
    have hfits : (LogValue.char 10).Fits (kSmallBuffer - content.length) ↔
        content.length ≠ 3999 := by
      rw [LogValue.fits_char, kSmallBuffer]
      omega
    rw [LogValue.addTo, if_congr hfits rfl rfl]
    split_ifs with hfull
    · simp [hfull, LogValue.text]
    · simp [hfull]
  · intro hshort
    have hsize : kSmallBuffer = 4000 := rfl
    have hnumeric : LogStream.kMaxNumericSize = 32 := rfl
    rw [LogStream.fill_of_short (by omega), LogValue.addTo, if_pos]
    · rfl
    · rw [LogValue.fits_char, List.length_append]
      omega

theorem formatTime_first :
    ∃ stream, formatTime TimeZone.civil ⟨none⟩ emptyCache 1000000 .new =
        .ok (⟨1, ascii "19700101 00:00:01"⟩, stream) ∧
      stream.buffer.bytes = ascii "19700101 00:00:01.000000Z " := by
  have hrefresh : refresh TimeZone.civil ⟨none⟩ emptyCache (seconds 1000000) =
      .ok ⟨1, ascii "19700101 00:00:01"⟩ := by decide +kernel
  obtain ⟨stream, hstream, hbytes⟩ :=
    formatTime_of_refresh hrefresh (by decide) (by decide +kernel)
  exact ⟨stream, hstream, hbytes.trans (by decide +kernel)⟩

/-- A record of 3999 bytes, its line number and its newline left out. -/
theorem long_record_without_newline :
    ∃ cache out, emit TimeZone.civil ⟨none⟩ ⟨1, fun _ => []⟩ emptyCache 1000000
        (.ofLine (ascii "a.cc") 1 (by decide)) [.string (List.replicate 3953 120)] =
          .ok (cache, out) ∧ out.length = 3999 ∧ out.getLast? = some 58 := by
  obtain ⟨stream, hstream, hbytes⟩ := formatTime_first
  obtain ⟨-, hemit⟩ := emit_eq ⟨1, fun _ => []⟩ hstream
    (.ofLine (ascii "a.cc") 1 (by decide)) [.string (List.replicate 3953 120)]
  rw [hbytes] at hemit
  refine ⟨_, _, hemit, ?_⟩
  decide +kernel

theorem short_record_is_line :
    ∃ cache out, emit TimeZone.civil ⟨none⟩ ⟨1, fun _ => []⟩ emptyCache 1000000
        (.ofLine (ascii "base/a.cc") 1 (by decide)) [.string (ascii "hello")] =
          .ok (cache, out) ∧
      out = ascii "19700101 00:00:01.000000Z     1 INFO  hello - a.cc:1" ++ [10] := by
  obtain ⟨stream, hstream, hbytes⟩ := formatTime_first
  obtain ⟨out, hout, -, hshort⟩ := record_is_line_iff ⟨1, fun _ => []⟩ hstream
    (.ofLine (ascii "base/a.cc") 1 (by decide)) [.string (ascii "hello")]
  rw [hbytes] at hshort
  exact ⟨_, out, hout, (hshort (by decide +kernel)).trans (by decide +kernel)⟩

end Records

end Logger

end Muduo
