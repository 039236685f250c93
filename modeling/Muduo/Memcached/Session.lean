import Muduo.Foundations.Search
import Muduo.Memcached.Store

/-!
# A memcached session

A session reads command lines, and behind a line that stores an item it reads the value. What
it does with the items of the server and what it answers follow from the bytes that arrive.
-/

namespace Muduo
namespace Memcached

open Foundations

/-- `SpaceSeparator`: the parts between blanks, without empty ones. `token` is the part that
was begun. -/
def tokensFrom (token : Bytes) : Bytes → List Bytes
  | [] => if token = [] then [] else [token]
  | b :: text =>
    if b = 32 then (if token = [] then [] else [token]) ++ tokensFrom [] text
    else tokensFrom (token ++ [b]) text

def tokens (text : Bytes) : List Bytes := tokensFrom [] text

def isSpace (b : UInt8) : Bool := b = 32 ∨ (9 ≤ b ∧ b ≤ 13)

def digitValue (b : UInt8) : Option ℕ := if 48 ≤ b ∧ b ≤ 57 then some (b.toNat - 48) else none

/-- The number behind the blanks and the sign. Too large a number is the largest one. -/
def unsignedOf (negative : Bool) (text : Bytes) : Option ℕ :=
  (readNumeral 10 digitValue text).map fun v =>
    if 2 ^ 64 ≤ v then 2 ^ 64 - 1 else if negative then (2 ^ 64 - v) % 2 ^ 64 else v

/-- `strtoull` on a token, where it has to come to the end of the token. Behind the token there
is a blank or the end of the line, neither of which it takes for a digit. -/
def strtoull (token : Bytes) : Option ℕ :=
  match token.dropWhile isSpace with
  | 45 :: text => unsignedOf true text
  | 43 :: text => unsignedOf false text
  | text => unsignedOf false text

/-- `Reader::read`, with the tokens that are left. -/
def readNumber : List Bytes → Option (ℕ × List Bytes)
  | [] => none
  | token :: rest => (strtoull token).map (·, rest)

inductive State
  | newCommand
  | receiveValue
  | discardValue
  deriving DecidableEq, Repr

structure Session where
  state : State
  command : Bytes
  noreply : Bool
  policy : UpdatePolicy
  currItem : Option Item
  bytesToDiscard : ℕ
  outputBuf : Bytes
  /-- whether `conn_` still takes what is sent -/
  connected : Bool
  deriving DecidableEq, Repr

/-- What a session does to its connection and to the server as a whole. -/
inductive Effect
  | send (data : Bytes)
  | shutdown
  | stop
  deriving DecidableEq, Repr

/-- The session and the items behind a part of `onMessage`. -/
structure Outcome where
  server : MemcacheServer
  session : Session
  effects : List Effect

def Session.new : Session := ⟨.newCommand, [], false, .invalid, none, 0, [], true⟩

namespace Session

variable (session : Session)

def resetRequest : Session :=
  { session with
    command := []
    noreply := false
    policy := .invalid
    currItem := none
    bytesToDiscard := 0 }

/-- `conn_->send`; a connection that is shut down takes nothing. -/
def send (data : Bytes) : List Effect := if session.connected then [.send data] else []

def reply (msg : String) : List Effect := if session.noreply then [] else session.send (ascii msg)

/-- `conn_->shutdown()`. -/
def shutdown : Session := { session with connected := false }

def shutdownEffects : List Effect := if session.connected then [.shutdown] else []

end Session

def kLongestKeySize : ℕ := 250

def policyOf (command : Bytes) : Option UpdatePolicy :=
  if command = ascii "set" then some .set
  else if command = ascii "add" then some .add
  else if command = ascii "replace" then some .replace
  else if command = ascii "append" then some .append
  else if command = ascii "prepend" then some .prepend
  else if command = ascii "cas" then some .cas
  else none

/-- `rel_exptime`. -/
def relExptimeOf (startTime exptime : ℤ) : ℤ :=
  if 60 * 60 * 24 * 30 < exptime then max 1 (Int.bmod (exptime - startTime) (2 ^ 32))
  else Int.bmod exptime (2 ^ 32)

/-- The numbers behind the key. -/
structure Fields where
  flags : ℕ
  exptime : ℤ
  bytes : ℤ
  cas : ℕ

/-- The number behind `bytes`, which only `cas` has. -/
def readCas (policy : UpdatePolicy) (args : List Bytes) : Option ℕ :=
  if policy = .cas then (readNumber args).map Prod.fst else some 0

def fieldsOf (policy : UpdatePolicy) (key : Bytes) (args : List Bytes) : Option Fields := do
  guard (key.length ≤ kLongestKeySize)
  let (flags, args) ← readNumber args
  let (exptime, args) ← readNumber args
  let (bytes, args) ← readNumber args
  let cas ← readCas policy args
  return ⟨flags % 2 ^ 32, Int.bmod exptime (2 ^ 64), Int.bmod bytes (2 ^ 32), cas⟩

section Commands

variable (hash : Bytes → ℕ) (startTime : ℤ) (server : MemcacheServer) (session : Session)

/-- The first part of the result says that the request is finished. Where a token is missing,
the iterator is dereferenced at the end. -/
def doUpdate (policy : UpdatePolicy) : List Bytes → Except Fault (Bool × Outcome)
  | [] => .error .assertion
  | key :: args =>
    let session := { session with policy := policy }
    match fieldsOf policy key args with
    | none => .ok ⟨true, server, session, session.reply "CLIENT_ERROR bad command line format\r\n"⟩
    | some fields =>
      if 1024 * 1024 < fields.bytes then
        .ok ⟨false, (server.deleteItem hash key).2,
          { session with
            bytesToDiscard := (Int.bmod (fields.bytes + 2) (2 ^ 32) % 2 ^ 64).toNat
            state := .discardValue },
          session.reply "SERVER_ERROR object too large for cache\r\n"⟩
      else do
        let item ← Item.makeItem key fields.flags (relExptimeOf startTime fields.exptime)
          (fields.bytes + 2) fields.cas
        return ⟨false, server, { session with currItem := some item, state := .receiveValue }, []⟩

def doDelete : List Bytes → Except Fault Outcome
  | [] => .error .assertion
  | key :: args =>
    if kLongestKeySize < key.length then
      .ok ⟨server, session, session.reply "CLIENT_ERROR bad command line format\r\n"⟩
    else if args.head?.any (· ≠ ascii "0") then
      .ok ⟨server, session, session.reply
        "CLIENT_ERROR bad command line format.  Usage: delete <key> [noreply]\r\n"⟩
    else
      .ok ⟨(server.deleteItem hash key).2, session,
        session.reply (if (server.deleteItem hash key).1 then "DELETED\r\n" else "NOT_FOUND\r\n")⟩

/-- The loop over the keys of `get`; whether it came to the end, and the output buffer. -/
def getItems (needCas : Bool) : List Bytes → Bytes → Bool × Bytes
  | [], buf => (true, buf)
  | key :: keys, buf =>
    if key.length ≤ kLongestKeySize then
      getItems needCas keys (buf ++ (server.getItem hash key).elim [] (·.output needCas))
    else (false, buf)

/-- A key that is too long leaves the values that were found before it in the output buffer. -/
def doGet (needCas : Bool) (keys : List Bytes) : Outcome :=
  let (good, buf) := getItems hash server needCas keys session.outputBuf
  if good then
    let buf := buf ++ ascii "END\r\n"
    ⟨server, { session with outputBuf := if session.connected then [] else buf },
      session.send buf⟩
  else
    ⟨server, { session with outputBuf := buf },
      session.reply "CLIENT_ERROR bad command line format\r\n"⟩

/-- The command with its arguments; the command is already in the session. -/
def dispatch (args : List Bytes) : Except Fault (Bool × Outcome) :=
  match policyOf session.command with
  | some policy => doUpdate hash startTime server session policy args
  | none =>
    if session.command = ascii "get" ∨ session.command = ascii "gets" then
      .ok (true, doGet hash server session (session.command = ascii "gets") args)
    else if session.command = ascii "delete" then
      (doDelete hash server session args).map (true, ·)
    else if session.command = ascii "version" then
      .ok ⟨true, server, session, session.reply "VERSION 0.01 muduo\r\n"⟩
    else if session.command = ascii "quit" then
      .ok ⟨true, server, session.shutdown, session.shutdownEffects⟩
    else if session.command = ascii "shutdown" then
      .ok ⟨true, server, session.shutdown, session.shutdownEffects ++ [.stop]⟩
    else .ok ⟨true, server, session, session.reply "ERROR\r\n"⟩

/-- `noreply` at the end of the line. -/
def stripNoreply (request : Bytes) : Bool × Bytes :=
  if 8 ≤ request.length ∧ request.drop (request.length - 8) = ascii " noreply" then
    (true, request.take (request.length - 8))
  else (false, request)

def processRequest (request : Bytes) : Except Fault (Bool × Outcome) := do
  assertThat (session.command = [])
  assertThat (session.noreply = false)
  assertThat (session.policy = .invalid)
  assertThat (session.currItem = none)
  assertThat (session.bytesToDiscard = 0)
  let (noreply, request) := stripNoreply request
  let session := { session with noreply := noreply }
  match tokens request with
  | [] => return ⟨true, server, session, session.reply "ERROR\r\n"⟩
  | command :: args => dispatch hash startTime server { session with command := command } args

def storeReply (policy : UpdatePolicy) : Bool × Bool → String
  | (true, _) => "STORED\r\n"
  | (false, existed) =>
    if policy = .cas then (if existed then "EXISTS\r\n" else "NOT_FOUND\r\n") else "NOT_STORED\r\n"

def receiveValue (buf : Bytes) : Except Fault (ℕ × Outcome) :=
  match session.currItem with
  | none => .error .assertion
  | some item => do
    let avail := min buf.length item.neededBytes
    let item ← item.append (buf.take avail)
    if item.neededBytes = 0 then
      let done := { session.resetRequest with state := .newCommand }
      if item.endsWithCRLF then do
        let (answer, server) ← server.storeItem hash item session.policy
        return ⟨avail, server, done, session.reply (storeReply session.policy answer)⟩
      else return ⟨avail, server, done, session.reply "CLIENT_ERROR bad data chunk\r\n"⟩
    else return ⟨avail, server, { session with currItem := some item }, []⟩

def discardValue (buf : Bytes) : Except Fault (ℕ × Session) := do
  assertThat (session.currItem = none)
  if buf.length < session.bytesToDiscard then
    return (buf.length, { session with bytesToDiscard := session.bytesToDiscard - buf.length })
  else return (session.bytesToDiscard, { session.resetRequest with state := .newCommand })

end Commands

/-- Where `onMessage` ends; `buf` is what stays in the input buffer. -/
structure Received where
  server : MemcacheServer
  session : Session
  buf : Bytes
  effects : List Effect

/-- The loop of `onMessage`. -/
def messageLoop (hash : Bytes → ℕ) (startTime : ℤ) :
    ℕ → MemcacheServer → Session → Bytes → List Effect → Except Fault Received
  | 0, _, _, _, _ => .error .endless
  | fuel + 1, server, session, buf, effects =>
    if buf = [] then .ok ⟨server, session, buf, effects⟩
    else
      match session.state with
      | .newCommand =>
        match findPair 13 10 buf with
        | some n => do
          let (finished, outcome) ← processRequest hash startTime server session (buf.take n)
          let session := if finished then outcome.session.resetRequest else outcome.session
          messageLoop hash startTime fuel outcome.server session (buf.drop (n + 2))
            (effects ++ outcome.effects)
        | none =>
          if 1024 < buf.length then
            .ok ⟨server, session.shutdown, buf, effects ++ session.shutdownEffects⟩
          else .ok ⟨server, session, buf, effects⟩
      | .receiveValue => do
        let (taken, outcome) ← receiveValue hash server session buf
        messageLoop hash startTime fuel outcome.server outcome.session (buf.drop taken)
          (effects ++ outcome.effects)
      | .discardValue => do
        let (taken, session) ← discardValue session buf
        messageLoop hash startTime fuel server session (buf.drop taken) effects

def onMessage (hash : Bytes → ℕ) (startTime : ℤ) (r : Received) (chunk : Bytes) :
    Except Fault Received :=
  messageLoop hash startTime ((r.buf ++ chunk).length + 1) r.server r.session (r.buf ++ chunk)
    r.effects

def receive (hash : Bytes → ℕ) (startTime : ℤ) (r : Received) (chunks : List Bytes) :
    Except Fault Received :=
  chunks.foldlM (onMessage hash startTime) r

end Memcached
end Muduo
