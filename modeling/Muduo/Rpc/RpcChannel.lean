import Muduo.Codec.Wire

/-!
# Remote calls

`RpcChannel` numbers its calls, keeps each with its response object and closure in
`outstandings_`, and sends it; a reply is matched by number. At the other end a
request is looked up and handed to a service, which runs its own closure later,
or it is answered with an error code at once. Here one channel that calls and one
that serves are joined by two wires, and the threads of both interleave: a call
has its number, is registered and is sent in three steps, and a reply is taken out
of the table before its closure is run.
-/

namespace Muduo

open Foundations

inductive MessageType where
  | request
  | response
  | error
  deriving DecidableEq, Repr

/-- `ErrorCode` of the protocol. -/
inductive RpcError where
  | noError
  | wrongProto
  | noService
  | noMethod
  | invalidRequest
  | invalidResponse
  | timeout
  deriving DecidableEq, Repr

structure RpcMessage where
  type : MessageType
  id : ℤ
  service : Option String
  method : Option String
  request : Option (List UInt8)
  response : Option (List UInt8)
  error : Option RpcError
  deriving DecidableEq, Repr

/-- The reply to a request, be it a payload or an error code. -/
def RpcMessage.reply (id : ℤ) : Except RpcError (List UInt8) → RpcMessage
  | .ok payload => ⟨.response, id, none, none, none, some payload, none⟩
  | .error error => ⟨.response, id, none, none, none, none, some error⟩

/-- A response object by its content, and a closure. -/
structure OutstandingCall (R C : Type) where
  response : Option R
  done : Option C

/-- A method: `ParseFromString` of its request prototype. -/
structure RpcMethod (Q : Type) where
  parseRequest : List UInt8 → Option Q

structure RpcService (Q : Type) where
  findMethodByName : String → Option (RpcMethod Q)

structure RpcChannel (R C : Type) where
  /-- `id_` -/
  id : ℤ
  outstandings : ℤ → Option (OutstandingCall R C)

/-- What `onRpcMessage` goes on to do outside of its critical section. -/
inductive RpcReaction (R C Q : Type) where
  | complete (out : OutstandingCall R C)
  | callMethod (request : Q)
  | send (error : RpcError)
  | nothing

/-- The service for a request, or the error code it is answered with. -/
def findService {Q : Type} (services : Option (String → Option (RpcService Q)))
    (message : RpcMessage) : Except RpcError Q :=
  match services with
  | some services =>
    match services (message.service.getD "") with
    | some service =>
      match service.findMethodByName (message.method.getD "") with
      | some method =>
        match method.parseRequest (message.request.getD []) with
        | some request => .ok request
        | none => .error .invalidRequest
      | none => .error .noMethod
    | none => .error .noService
  | none => .error .noService

namespace RpcChannel

variable {R C Q : Type} (channel : RpcChannel R C)

def init : RpcChannel R C where
  id := 0
  outstandings _ := none

def onRpcMessage (services : Option (String → Option (RpcService Q))) (message : RpcMessage) :
    Except Fault (RpcChannel R C × RpcReaction R C Q) :=
  match message.type with
  | .response => do
    assertThat (message.response.isSome ∨ message.error.isSome)
    match channel.outstandings message.id with
    | some out =>
      let outstandings := Function.update channel.outstandings message.id none
      return ({ channel with outstandings := outstandings }, .complete out)
    | none => return (channel, .complete ⟨none, none⟩)
  | .request =>
    match findService services message with
    | .ok request => return (channel, .callMethod request)
    | .error error => return (channel, .send error)
  | .error => return (channel, .nothing)

end RpcChannel

/-- The closure that is run with a reply, and the response object it finds. -/
def OutstandingCall.complete {R C : Type} (parseFromString : R → List UInt8 → R)
    (out : OutstandingCall R C) (message : RpcMessage) : Option (C × R) :=
  match out.response with
  | none => none
  | some response =>
    let response :=
      match message.response with
      | some payload => parseFromString response payload
      | none => response
    out.done.map (·, response)

/-- The arguments of `CallMethod`; the response object is not null. -/
structure RpcCall (R C : Type) where
  service : String
  method : String
  request : List UInt8
  response : R
  done : Option C

def RpcCall.message {R C : Type} (call : RpcCall R C) (id : ℤ) : RpcMessage :=
  ⟨.request, id, some call.service, some call.method, some call.request, none, none⟩

/-- A call of a service whose closure has not been run. -/
structure RpcInvocation (Q : Type) where
  message : RpcMessage
  request : Q

structure RpcPair (R C Q : Type) where
  client : RpcChannel R C
  /-- calls of `CallMethod` that have their number -/
  numbered : List (RpcMessage × OutstandingCall R C)
  /-- those that are registered and not sent -/
  sending : List RpcMessage
  toServer : Wire
  server : RpcChannel R C
  invocations : List (RpcInvocation Q)
  /-- replies that are not sent -/
  replies : List RpcMessage
  toClient : Wire
  /-- the reply that the client's loop has taken, between critical section and closure -/
  completing : Option (OutstandingCall R C × RpcMessage)
  /-- what has happened: calls registered, requests answered, replies taken, and
  closures run with what they found -/
  issued : List (RpcMessage × OutstandingCall R C)
  served : List (RpcMessage × Except RpcError (List UInt8))
  taken : List RpcMessage
  ran : List (ℤ × C × R)

inductive RpcStep (R C : Type) where
  /-- a thread of the client, in `CallMethod` -/
  | incrementAndGet (call : RpcCall R C)
  | register (id : ℤ)
  | sendRequest (id : ℤ)
  /-- the server's loop -/
  | serverArrive (n : ℕ)
  | serverPass
  /-- a thread of the server, in `doneCallback` -/
  | doneCallback (id : ℤ) (payload : List UInt8)
  | sendReply (id : ℤ)
  /-- the client's loop -/
  | clientArrive (n : ℕ)
  | clientPass
  | run

namespace RpcPair

variable {R C Q : Type}

def init : RpcPair R C Q where
  client := .init
  numbered := []
  sending := []
  toServer := .init
  server := .init
  invocations := []
  replies := []
  toClient := .init
  completing := none
  issued := []
  served := []
  taken := []
  ran := []

variable (codec : ProtobufCodecLite RpcMessage) (services : String → Option (RpcService Q))
  (parseFromString : R → List UInt8 → R) (w : RpcPair R C Q)

/-- `id_.incrementAndGet()`, and the message and table entry made with it. -/
def incrementAndGet (call : RpcCall R C) : RpcPair R C Q :=
  let id := w.client.id + 1
  { w with
    client := { w.client with id := id }
    numbered := w.numbered ++ [(call.message id, ⟨some call.response, call.done⟩)] }

/-- `outstandings_[id] = out`. -/
def register (message : RpcMessage) (out : OutstandingCall R C) : RpcPair R C Q :=
  let outstandings := Function.update w.client.outstandings message.id (some out)
  { w with
    client := { w.client with outstandings := outstandings }
    numbered := w.numbered.eraseP (·.1.id = message.id)
    sending := w.sending ++ [message]
    issued := w.issued ++ [(message, out)] }

/-- A request arrives at a service, or is answered with an error code. The server
makes no calls of its own. -/
def serve (message : RpcMessage) : Except Fault (RpcPair R C Q) := do
  let (server, reaction) ← w.server.onRpcMessage (some services) message
  match reaction with
  | .callMethod request =>
    return { w with server := server, invocations := w.invocations ++ [⟨message, request⟩] }
  | .send error =>
    return { w with
      server := server
      replies := w.replies ++ [.reply message.id (.error error)]
      served := w.served ++ [(message, .error error)] }
  | .complete _ | .nothing => return { w with server := server }

def doneCallback (invocation : RpcInvocation Q) (payload : List UInt8) : RpcPair R C Q :=
  { w with
    invocations := w.invocations.eraseP (·.message.id = invocation.message.id)
    replies := w.replies ++ [.reply invocation.message.id (.ok payload)]
    served := w.served ++ [(invocation.message, .ok payload)] }

/-- A reply arrives at the client, which serves nothing itself. -/
def take (message : RpcMessage) : Except Fault (RpcPair R C Q) := do
  let noServices : Option (String → Option (RpcService Q)) := none
  let (client, reaction) ← w.client.onRpcMessage noServices message
  match reaction with
  | .complete out =>
    return { w with
      client := client
      completing := some (out, message)
      taken := w.taken ++ [message] }
  | .send error =>
    return { w with client := client, sending := w.sending ++ [.reply message.id (.error error)] }
  | .callMethod _ | .nothing => return { w with client := client }

def step : RpcStep R C → Except Fault (RpcPair R C Q)
  | .incrementAndGet call => return w.incrementAndGet call
  | .register id =>
    match w.numbered.find? (·.1.id = id) with
    | some (message, out) => return w.register message out
    | none => return w
  | .sendRequest id =>
    match w.sending.find? (·.id = id) with
    | some message => do
      let toServer ← w.toServer.send codec message
      return { w with toServer := toServer, sending := w.sending.eraseP (·.id = id) }
    | none => return w
  | .serverArrive n => do
    let toServer ← w.toServer.arrive n
    return { w with toServer := toServer }
  | .serverPass => do
    let (message, toServer) ← w.toServer.pass codec
    match message with
    | some message => serve services { w with toServer := toServer } message
    | none => return { w with toServer := toServer }
  | .doneCallback id payload =>
    match w.invocations.find? (·.message.id = id) with
    | some invocation => return w.doneCallback invocation payload
    | none => return w
  | .sendReply id =>
    match w.replies.find? (·.id = id) with
    | some message => do
      let toClient ← w.toClient.send codec message
      return { w with toClient := toClient, replies := w.replies.eraseP (·.id = id) }
    | none => return w
  | .clientArrive n => do
    let toClient ← w.toClient.arrive n
    return { w with toClient := toClient }
  | .clientPass => do
    let (message, toClient) ← w.toClient.pass codec
    match message with
    | some message => take { w with toClient := toClient } message
    | none => return { w with toClient := toClient }
  | .run =>
    match w.completing with
    | some (out, message) =>
      return { w with
        completing := none
        ran := w.ran ++ ((out.complete parseFromString message).map (message.id, ·)).toList }
    | none => return w

/-- What can happen next. A closure of a service is run at most once; a message
has no more bytes than an `int` can count; and the client's loop has returned from
one closure before it takes the next reply. -/
def Allows : RpcStep R C → Prop
  | .incrementAndGet _ => True
  | .register id => (w.numbered.find? (·.1.id = id)).isSome
  | .sendRequest id => ∃ m ∈ w.sending.find? (·.id = id), (codec.body m).length < 2 ^ 31
  | .serverArrive _ | .clientArrive _ | .serverPass => True
  | .doneCallback id _ => (w.invocations.find? (·.message.id = id)).isSome
  | .sendReply id => ∃ m ∈ w.replies.find? (·.id = id), (codec.body m).length < 2 ^ 31
  | .clientPass => w.completing.isNone
  | .run => w.completing.isSome

def machine : Machine (RpcPair R C Q) (RpcStep R C) Fault where
  Allows w a := w.Allows codec a
  step w a := w.step codec services parseFromString a

instance (a : RpcStep R C) : Decidable (w.Allows codec a) := by
  cases a <;> unfold Allows <;> infer_instance

instance (a : RpcStep R C) :
    Decidable ((machine codec services parseFromString).Allows w a) :=
  inferInstanceAs (Decidable (w.Allows codec a))

end RpcPair
end Muduo
