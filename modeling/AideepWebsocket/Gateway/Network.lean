import AideepWebsocket.DocManager.Updates
import AideepWebsocket.Gateway.Handlers

/-!
# The server and its clients

Here the gateway runs together with its clients.  A client keeps a replica of
each document, edits it whether it is connected or not, and speaks the sync
protocol: it sends the state vector of its replica or updates that its replica
contains, applies what it receives, and answers a SyncStep1.  Messages may wait
for any time in either direction, and overtake one another.

What the clients do with each other's edits is decided by the server alone, which
relays them.  `Network.Converged` says what that should come to: a client that
has completed its sync with the document that the server manages, and for which
nothing is on its way, holds all of that document.
-/

namespace AideepWebsocket.Gateway

open DocManager (DocRef)

/-- The messages on their way in one direction. -/
abbrev Channel := List (NodeId × SyncMessage)

/-- The server, the replicas of its clients and the messages between them.

`answered` is read by no step: it records the document from which the server has
answered the SyncStep1 of a client that is in the room. -/
structure Network where
  server : State
  replicas : SocketId → NodeId → YDoc
  toServer : SocketId → Channel
  toClient : SocketId → Channel
  answered : SocketId → NodeId → Option DocRef

inductive NetworkEvent
  | edit (socket : SocketId) (nodeId : NodeId) (change : YDoc)
  | send (socket : SocketId) (nodeId : NodeId) (data : SyncMessage)
  /-- The `i`-th message on its way to the server arrives. -/
  | deliver (socket : SocketId) (i : ℕ)
  /-- The `i`-th message on its way to the client arrives. -/
  | receive (socket : SocketId) (i : ℕ)
  /-- Any other step of the server. -/
  | server (e : Event)
  deriving DecidableEq

/-- What a client may say of its replica. -/
def Honest (replica : YDoc) : SyncMessage → Prop
  | .syncStep1 stateVector => stateVector = encodeStateVector replica
  | .syncStep2 u | .update u => u ≤ replica

instance (replica : YDoc) (data : SyncMessage) : Decidable (Honest replica data) := by
  unfold Honest
  split <;> infer_instance

/-- The sync messages among what the server sends that are for the client. -/
def received (socket : SocketId) (out : List Output) : Channel :=
  out.filterMap fun
    | .emit recipients (.yjsSync nodeId data) =>
        if socket ∈ recipients then some (nodeId, data) else none
    | _ => none

/-- The client asks for what it does not have of the node. -/
def Event.asks (e : Event) (socket : SocketId) (nodeId : NodeId) : Bool :=
  match e with
  | .yjsSync k n (.syncStep1 _) => k = socket ∧ n = nodeId
  | _ => false

/-- The message comes from a client. -/
def Event.ofClient : Event → Bool
  | .yjsSync _ _ _ => true
  | _ => false

namespace Network

/-- Before any client has connected. -/
def init (nodes : NodeId → Option DocManager.NodeRow)
    (memberships : UserId → WorkspaceId → Option Role) : Network where
  server := .init nodes memberships
  replicas _ _ := ⊥
  toServer _ := []
  toClient _ := []
  answered _ _ := none

/-- The replica takes in an update. -/
def merge (net : Network) (socket : SocketId) (nodeId : NodeId) (u : YDoc) : Network :=
  { net with
    replicas := Function.update net.replicas socket (Function.update (net.replicas socket) nodeId
      (applyUpdate (net.replicas socket nodeId) u)) }

/-- A message is put on its way to the server. -/
def push (net : Network) (socket : SocketId) (nodeId : NodeId) (data : SyncMessage) : Network :=
  { net with
    toServer := Function.update net.toServer socket (net.toServer socket ++ [(nodeId, data)]) }

/-- The server goes on to `s'` in the step `e`, and what it sends is put on its
way. -/
def after (net : Network) (e : Event) (s' : State) (out : List Output) : Network :=
  { net with
    server := s'
    toClient := fun k => net.toClient k ++ received k out
    answered := fun k n =>
      if k ∈ s'.inRoom (.yjsRoom n) then
        if e.asks k n then net.server.manager.mem.docs n else net.answered k n
      else none }

variable (lex : Lexical) (verify : String → Option UserId)

/-- The server takes a step. -/
def serve (net : Network) (e : Event) : Option Network :=
  (handle lex verify net.server e).map fun (s', out) => net.after e s' out

/-- One step of the network. -/
def step (net : Network) : NetworkEvent → Option Network
  | .edit socket nodeId change => some (net.merge socket nodeId change)
  | .send socket nodeId data =>
      if Honest (net.replicas socket nodeId) data then some (net.push socket nodeId data)
      else none
  | .deliver socket i =>
      match (net.toServer socket)[i]? with
      | none => none
      | some (nodeId, data) =>
          { net with
            toServer := Function.update net.toServer socket
              ((net.toServer socket).eraseIdx i) }.serve lex verify (.yjsSync socket nodeId data)
  | .receive socket i =>
      match (net.toClient socket)[i]? with
      | none => none
      | some (nodeId, data) =>
          let net' := { net with
            toClient := Function.update net.toClient socket
              ((net.toClient socket).eraseIdx i) }.merge socket nodeId data.changes
          -- the client answers through the encoder, as the server does
          match (readSyncMessage (net.replicas socket nodeId) data).reply with
          | none => some net'
          | some reply => some (net'.push socket nodeId reply)
  | .server e => if e.ofClient then none else net.serve lex verify e

/-! ### Convergence -/

/-- Nothing of the node is on its way to the client: no message, and no append
whose update is still to be broadcast. -/
def Quiet (net : Network) (socket : SocketId) (nodeId : NodeId) : Prop :=
  (∀ data, (nodeId, data) ∉ net.toClient socket) ∧
    ∀ t u, net.server.manager.Carries t nodeId u → t ∈ net.server.announced

/-- A client that has completed its sync holds all the content of the document,
once nothing is on its way. -/
def Converged (net : Network) : Prop :=
  ∀ socket nodeId r, net.server.manager.mem.docs nodeId = some r →
    net.answered socket nodeId = some r → net.Quiet socket nodeId →
    (net.server.manager.mem.heap r).doc ≤ net.replicas socket nodeId

/-- A sync message that changes the document is an Update of a socket that is not
recorded as read-only, and no append fails after it has edited its document. -/
def Accounted (net : Network) (e : NetworkEvent) (net' : Network) : Prop :=
  match e with
  | .deliver socket i => ∀ m ∈ (net.toServer socket)[i]?,
      ∀ r ∈ net.server.manager.mem.docs m.1,
        m.2.changes ≤ (net.server.manager.mem.heap r).doc ∨
          m.2.messageType = 2 ∧ (net.server.data socket).yjsReadOnly m.1 ≠ some true
  | .server (.manager (.continueFlush t)) => net'.server.manager.Spared t
  | .server (.manager (.resumeAppend t _)) => net'.server.manager.Spared t
  | _ => True

instance (net : Network) (e : NetworkEvent) (net' : Network) :
    Decidable (net.Accounted e net') := by
  unfold Accounted
  split <;> infer_instance

end Network

end AideepWebsocket.Gateway
