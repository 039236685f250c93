import Mathlib.Data.List.DropRight
import Muduo.Foundations.Machine
import Muduo.Base.Text
import Muduo.Base.Timestamp
import Muduo.Buffer.Basic

/-!
# HTTP requests and responses

Strings are lists of bytes. A `std::map` from strings to strings is the list of
its entries in the order of their keys.
-/

namespace Muduo

open Foundations

/-- `map[key] = value`. -/
def mapSet (key value : Bytes) : List (Bytes × Bytes) → List (Bytes × Bytes)
  | [] => [(key, value)]
  | (k, v) :: entries =>
    if key = k then (key, value) :: entries
    else if key < k then (key, value) :: (k, v) :: entries
    else (k, v) :: mapSet key value entries

/-- The characters of `isspace` in the C locale. -/
def isspace (c : UInt8) : Bool := c = 32 || (9 ≤ c && c ≤ 13)

namespace HttpRequest

inductive Method where
  | kInvalid
  | kGet
  | kPost
  | kHead
  | kPut
  | kDelete
  deriving DecidableEq, Repr

inductive Version where
  | kUnknown
  | kHttp10
  | kHttp11
  deriving DecidableEq, Repr

end HttpRequest

open HttpRequest in
structure HttpRequest where
  method : Method
  version : Version
  path : Bytes
  query : Bytes
  receiveTime : Timestamp
  headers : List (Bytes × Bytes)
  deriving DecidableEq

namespace HttpRequest

def init : HttpRequest where
  method := .kInvalid
  version := .kUnknown
  path := []
  query := []
  receiveTime := Timestamp.invalid
  headers := []

def methodOf (m : Bytes) : Method :=
  if m = ascii "GET" then .kGet
  else if m = ascii "POST" then .kPost
  else if m = ascii "HEAD" then .kHead
  else if m = ascii "PUT" then .kPut
  else if m = ascii "DELETE" then .kDelete
  else .kInvalid

variable (r : HttpRequest)

def setMethod (m : Bytes) : Except Fault (Bool × HttpRequest) := do
  assertThat (r.method = .kInvalid)
  return (methodOf m ≠ .kInvalid, { r with method := methodOf m })

def trim (value : Bytes) : Bytes := (value.dropWhile isspace).rdropWhile isspace

/-- A header line, cut at the position of its colon. -/
def addHeader (line : Bytes) (colon : ℕ) : HttpRequest :=
  { r with headers := mapSet (line.take colon) (trim (line.drop (colon + 1))) r.headers }

def getHeader (field : Bytes) : Bytes := (r.headers.lookup field).getD []

end HttpRequest

inductive HttpStatusCode where
  | kUnknown
  | k200Ok
  | k301MovedPermanently
  | k400BadRequest
  | k404NotFound
  deriving DecidableEq, Repr

def HttpStatusCode.code : HttpStatusCode → ℕ
  | .kUnknown => 0
  | .k200Ok => 200
  | .k301MovedPermanently => 301
  | .k400BadRequest => 400
  | .k404NotFound => 404

structure HttpResponse where
  headers : List (Bytes × Bytes)
  statusCode : HttpStatusCode
  statusMessage : Bytes
  closeConnection : Bool
  body : Bytes
  deriving DecidableEq

namespace HttpResponse

def init (close : Bool) : HttpResponse where
  headers := []
  statusCode := .kUnknown
  statusMessage := []
  closeConnection := close
  body := []

/-- `snprintf` into a buffer of 32 characters. -/
def snprintf32 (text : String) : Bytes := (ascii text).take 31

variable (response : HttpResponse)

/-- The pieces of the response, in the order in which they are appended. -/
def pieces : List Bytes :=
  [snprintf32 ("HTTP/1.1 " ++ toString response.statusCode.code ++ " "), response.statusMessage,
    ascii "\r\n"] ++
  (if response.closeConnection then [ascii "Connection: close\r\n"]
    else [snprintf32 ("Content-Length: " ++ toString response.body.length ++ "\r\n"),
      ascii "Connection: Keep-Alive\r\n"]) ++
  response.headers.flatMap (fun h => [h.1, ascii ": ", h.2, ascii "\r\n"]) ++
  [ascii "\r\n", response.body]

def appendToBuffer (output : Buffer) : Except Fault Buffer :=
  response.pieces.foldlM Buffer.append output

theorem foldlM_append_ok (pieces : List Bytes) (output : Buffer) :
    ∃ output', pieces.foldlM Buffer.append output = .ok output' ∧
      output'.contents = output.contents ++ pieces.flatten := by
  induction pieces generalizing output with
  | nil => exact ⟨output, rfl, by simp⟩
  | cons piece pieces ih =>
    obtain ⟨b, hb, hc, -⟩ := output.append_spec piece
    obtain ⟨output', ho, hco⟩ := ih b
    refine ⟨output', ?_, ?_⟩
    · rw [List.foldlM_cons, hb, ok_bind, ho]
    · rw [hco, hc, List.append_assoc, List.flatten_cons]

theorem appendToBuffer_ok (output : Buffer) :
    ∃ output', response.appendToBuffer output = .ok output' ∧
      output'.contents = output.contents ++ response.pieces.flatten :=
  foldlM_append_ok response.pieces output

end HttpResponse
end Muduo
