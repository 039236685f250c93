import Muduo.Http.Segmentation

/-!
# The server on one connection

`HttpServer::onMessage` is called once for each piece of input that arrives, and
calls the parser once. The events are its calls: of the user's callback, and of
`send` and `shutdown` on the connection. The callback is any function of the
request and of what it remembers from earlier calls.
-/

namespace Muduo

open Foundations

inductive HttpEvent where
  | httpCallback (request : HttpRequest)
  | send (message : Bytes)
  | shutdown
  deriving DecidableEq

/-- What the user's callback does with a response that it is handed. -/
abbrev HttpCallback (σ : Type) := σ → HttpRequest → HttpResponse → σ × HttpResponse

/-- One connection of the server. -/
structure HttpSession (σ : Type) where
  user : σ
  context : HttpContext
  input : Buffer
  events : List HttpEvent
  deriving DecidableEq

namespace HttpServer

def badRequest : Bytes := ascii "HTTP/1.1 400 Bad Request\r\n\r\n"

/-- Whether the request itself asks for the connection to be closed. -/
def closes (req : HttpRequest) : Bool :=
  let connection := req.getHeader (ascii "Connection")
  connection = ascii "close" ||
    (req.version = .kHttp10 && connection ≠ ascii "Keep-Alive")

/-- `onConnection` sets a fresh context. -/
def start {σ : Type} (user : σ) : HttpSession σ := ⟨user, .init, default, []⟩

variable {σ : Type} (callback : HttpCallback σ)

def onRequest (s : HttpSession σ) (req : HttpRequest) : Except Fault (HttpSession σ) := do
  let (user, response) := callback s.user req (.init (closes req))
  let buf ← response.appendToBuffer default
  return { s with
    user := user
    events := s.events ++ [.httpCallback req, .send buf.contents] ++
      if response.closeConnection then [.shutdown] else [] }

def onMessage (s : HttpSession σ) (receiveTime : Timestamp) : Except Fault (HttpSession σ) := do
  let (ok, context, input) ← s.context.parseRequest s.input receiveTime
  let s := { s with
    context := context
    input := input
    events := s.events ++ if ok then [] else [.send badRequest, .shutdown] }
  if context.gotAll then
    let s ← onRequest callback s context.request
    return { s with context := context.reset }
  else return s

/-- A piece of input arrives, with the time of its arrival. -/
def deliver (s : HttpSession σ) (piece : Bytes × Timestamp) : Except Fault (HttpSession σ) := do
  let input ← s.input.append piece.1
  onMessage callback { s with input := input } piece.2

def serve (s : HttpSession σ) (pieces : List (Bytes × Timestamp)) : Except Fault (HttpSession σ) :=
  pieces.foldlM (deliver callback) s

def answer (user : σ) (req : HttpRequest) : σ × List HttpEvent :=
  let (user, response) := callback user req (.init (closes req))
  (user, [.httpCallback req, .send response.pieces.flatten] ++
    if response.closeConnection then [.shutdown] else [])

theorem onRequest_ok (s : HttpSession σ) (req : HttpRequest) :
    onRequest callback s req = .ok { s with
      user := (answer callback s.user req).1
      events := s.events ++ (answer callback s.user req).2 } := by
  obtain ⟨buf, hbuf, hcontents⟩ :=
    (callback s.user req (.init (closes req))).2.appendToBuffer_ok default
  have hempty : (default : Buffer).contents = [] := Buffer.contents_ofSize _
  rw [hempty, List.nil_append] at hcontents
  simp [onRequest, answer, hbuf, hcontents]

end HttpServer
end Muduo
