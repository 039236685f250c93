import Muduo.Foundations.Search
import Muduo.Http.Message

/-!
# The request parser

`HttpContext` parses one request from the front of an input buffer, line by
line. A failed request line leaves the request half filled and the line in the
buffer. There is no state for a body: with a body expected, or with a complete
request still in place, the loop has no branch to take and does not end.
-/

namespace Muduo

open Foundations

/-- `std::search` for `"\r\n"` in the readable bytes, as a pointer. -/
def Buffer.findCRLF (b : Buffer) : Option ℕ := (findPair 13 10 b.contents).map (b.peek + ·)

inductive HttpRequestParseState where
  | kExpectRequestLine
  | kExpectHeaders
  | kExpectBody
  | kGotAll
  deriving DecidableEq, Repr

structure HttpContext where
  state : HttpRequestParseState
  request : HttpRequest
  deriving DecidableEq

namespace HttpRequest

variable (r : HttpRequest)

/-- The target of the request line, cut at the question mark. -/
def setTarget (target : Bytes) : HttpRequest :=
  let question := target.idxOf 63
  if question ≠ target.length then
    { r with path := target.take question, query := target.drop question }
  else { r with path := target }

/-- The last part of the request line. -/
def setVersionText (text : Bytes) : Bool × HttpRequest :=
  if text.length = 8 ∧ text.take 7 = ascii "HTTP/1." then
    if text.drop 7 = ascii "1" then (true, { r with version := .kHttp11 })
    else if text.drop 7 = ascii "0" then (true, { r with version := .kHttp10 })
    else (false, r)
  else (false, r)

/-- The request line behind the method. -/
def setTargetAndVersion (text : Bytes) : Bool × HttpRequest :=
  let space := text.idxOf 32
  if space ≠ text.length then (r.setTarget (text.take space)).setVersionText (text.drop (space + 1))
  else (false, r)

/-- The result tells whether the line is good; the request keeps what was read. -/
def processRequestLine (line : Bytes) : Except Fault (Bool × HttpRequest) := do
  let space := line.idxOf 32
  if space ≠ line.length then
    let (known, r) ← r.setMethod (line.take space)
    return if known then r.setTargetAndVersion (line.drop (space + 1)) else (false, r)
  else return (false, r)

end HttpRequest

namespace HttpContext

def init : HttpContext := ⟨.kExpectRequestLine, .init⟩

variable (c : HttpContext)

def gotAll : Bool := c.state = .kGotAll

def reset (_c : HttpContext) : HttpContext := init

/-- One pass through the loop of `parseRequest`: it ends, or goes on. -/
inductive Pass where
  | stop (ok : Bool) (context : HttpContext) (buf : Buffer)
  | again (context : HttpContext) (buf : Buffer)

/-- The bytes in front of a pointer into the buffer. -/
def lineBefore (buf : Buffer) (crlf : ℕ) : Bytes := buf.contents.take (crlf - buf.peek)

def passRequestLine (buf : Buffer) (receiveTime : Timestamp) : Except Fault Pass :=
  match buf.findCRLF with
  | some crlf => do
    let (ok, request) ← c.request.processRequestLine (lineBefore buf crlf)
    if ok then
      let buf ← buf.retrieveUntil (crlf + 2)
      return .again ⟨.kExpectHeaders, { request with receiveTime := receiveTime }⟩ buf
    else return .stop false { c with request := request } buf
  | none => .ok (.stop true c buf)

def passHeaders (buf : Buffer) : Except Fault Pass :=
  match buf.findCRLF with
  | some crlf => do
    let line := lineBefore buf crlf
    let colon := line.idxOf 58
    let buf ← buf.retrieveUntil (crlf + 2)
    return if colon ≠ line.length then
      .again { c with request := c.request.addHeader line colon } buf
    -- empty line, end of header
    else .stop true { c with state := .kGotAll } buf
  | none => .ok (.stop true c buf)

def pass (buf : Buffer) (receiveTime : Timestamp) : Except Fault Pass :=
  match c.state with
  | .kExpectRequestLine => c.passRequestLine buf receiveTime
  | .kExpectHeaders => c.passHeaders buf
  | .kExpectBody => .ok (.again c buf)
  | .kGotAll => .ok (.again c buf)

/-- The loop; a pass that goes on takes a line, if there is a branch for it. -/
def passes (receiveTime : Timestamp) :
    ℕ → HttpContext → Buffer → Except Fault (Bool × HttpContext × Buffer)
  | 0, _, _ => .error .endless
  | fuel + 1, c, buf => do
    match ← c.pass buf receiveTime with
    | .stop ok c buf => return (ok, c, buf)
    | .again c buf => passes receiveTime fuel c buf

def parseRequest (buf : Buffer) (receiveTime : Timestamp) :
    Except Fault (Bool × HttpContext × Buffer) :=
  passes receiveTime (buf.readableBytes + 1) c buf

/-- Chunks arrive one by one, and each is parsed as far as it goes. Behind a
failure or a complete request the chunks are only appended. -/
def parseChunks (receiveTime : Timestamp) :
    HttpContext → Buffer → List Bytes → Except Fault (Bool × HttpContext × Buffer)
  | c, buf, [] => .ok (true, c, buf)
  | c, buf, chunk :: chunks => do
    let buf ← buf.append chunk
    let (ok, c, buf) ← c.parseRequest buf receiveTime
    if ok ∧ !c.gotAll then parseChunks receiveTime c buf chunks
    else
      let buf ← chunks.foldlM Buffer.append buf
      return (ok, c, buf)

end HttpContext
end Muduo
