import AideepWebsocket.DocManager.Operations

/-!
# The state of WsGateway

The gateway holds the connected sockets, the Socket.IO rooms, the data it keeps
per socket, and the document manager.  Its handlers are suspended at their
awaits: a membership query, a Redis command, or `getOrCreateDoc`.

* `data` — `client.data`.  The object outlives the connection, since a suspended
  handler still holds it.
* `rooms` — the rooms of the adapter.  A handler that resumes after the
  disconnect may still add its socket, but nothing is delivered to it.
* `yjsRooms` — the nodes each socket has joined.
* `handlers`, `commands` — the suspended handlers, and those of them that await
  Redis, in the order of their commands.
* `presence`, `awareness` — the `ws:presence:*` hashes and the
  `yjs:ws:awareness:*` keys.
* `memberships` — the rows of `users_workspaces` that are not deleted.

Two fields record what has happened and are never read: `passed`, the membership
checks that found a row, and `announced`, the appends whose caller has broadcast
their update.

Rooms are kept apart by what they are for; the identifiers that the room names
are made of are UUIDs.  `cursor_move`, whose handler is empty, is left out, and
so are the metrics and the log.
-/

namespace AideepWebsocket.Gateway

open DocManager (TaskId)

abbrev HandlerId := ℕ

/-- The payload of an awareness message. -/
abbrev Bytes := List UInt8

/-- `workspace_role_enum`. -/
inductive Role
  | OWNER
  | VIEWER
  | EDITOR
  deriving DecidableEq

/-- `interface PresenceMember`. -/
structure PresenceMember where
  userId : UserId
  userName : String
  color : String
  profile : Option String
  deriving DecidableEq

/-- The payload of `node_position_live`, which is only passed on. -/
structure NodePosition where
  workspaceId : WorkspaceId
  nodeId : NodeId
  x : ℤ
  y : ℤ
  deriving DecidableEq

/-- The types of events that the API server publishes. -/
inductive WsEventType
  | NODE_MOVE
  | NODE_CREATE
  | NODE_DELETE
  | NODE_UPDATE
  | EDGE_CREATE
  | EDGE_DELETED
  | EDGE_UPDATE
  | other (name : String)
  deriving DecidableEq

/-- `ECHO_SUPPRESSED_TYPES`. -/
def ECHO_SUPPRESSED_TYPES : List WsEventType :=
  [.NODE_MOVE, .NODE_CREATE, .NODE_DELETE, .NODE_UPDATE, .EDGE_CREATE, .EDGE_DELETED,
    .EDGE_UPDATE]

/-- What `broadcast` reads of a `WsEvent`. -/
structure WsEvent where
  type : WsEventType
  workspaceId : WorkspaceId
  userId : Option UserId
  nodeId : NodeId
  deriving DecidableEq

inductive Room
  | userRoom (userId : UserId)
  | workspace (workspaceId : WorkspaceId)
  | yjsRoom (nodeId : NodeId)
  | yjsWsRoom (workspaceId : WorkspaceId)
  deriving DecidableEq

/-- The events that the server emits. -/
inductive ServerEvent
  | presenceState (workspaceId : WorkspaceId) (members : List PresenceMember)
  | nodePositionLive (payload : NodePosition)
  | yjsSync (nodeId : NodeId) (data : SyncMessage)
  | yjsAwareness (nodeId : NodeId) (data : Bytes)
  | yjsWsAwareness (workspaceId : WorkspaceId) (data : Bytes)
  | workspaceEvent (event : WsEvent)
  deriving DecidableEq

/-- What a handler returns to its client. -/
inductive Ack
  | ok
  | joined (readOnly : Bool)
  | error (text : String)
  deriving DecidableEq

/-- What a step of the gateway sends. -/
inductive Output
  | emit (recipients : Finset SocketId) (event : ServerEvent)
  | ack (socket : SocketId) (reply : Ack)
  deriving DecidableEq

/-- `client.data`. -/
structure ClientData where
  userId : Option UserId := none
  workspaceId : Option WorkspaceId := none
  /-- An absent entry is `undefined`; the others are a row or `null`. -/
  membershipCache : WorkspaceId → Option (Option Role) := fun _ => none
  yjsReadOnly : NodeId → Option Bool := fun _ => none

/-- Where a handler is suspended.

* `join_workspace` awaits `checkWorkspace`, `getCachedAwareness`, the two
  commands of `upsertPresence` and the `hGetAll` of `broadcastPresence`;
* `handleDisconnect` awaits `removePresence` and `broadcastPresence`;
* `yjs:join` awaits `checkWorkspace` and `getOrCreateDoc`;
* `yjs:ws:awareness` awaits `cacheAwareness`. -/
inductive Pending
  | joinCheckWorkspace (workspaceId : WorkspaceId) (member : PresenceMember)
  | joinGetCachedAwareness (workspaceId : WorkspaceId) (member : PresenceMember)
  | joinUpsertPresence (workspaceId : WorkspaceId) (member : PresenceMember)
  | joinExpirePresence (workspaceId : WorkspaceId)
  | joinListPresence (workspaceId : WorkspaceId)
  | leaveRemovePresence (workspaceId : WorkspaceId) (userId : UserId)
  | leaveListPresence (workspaceId : WorkspaceId)
  | yjsCheckWorkspace (userId : UserId) (workspaceId : WorkspaceId) (nodeId : NodeId)
  | yjsGetOrCreateDoc (workspaceId : WorkspaceId) (role : Role) (nodeId : NodeId) (get : ℕ)
  | cacheAwareness (workspaceId : WorkspaceId) (data : Bytes)
  deriving DecidableEq

structure Handler where
  socket : SocketId
  pending : Pending
  deriving DecidableEq

structure State where
  manager : DocManager.State
  connected : Finset SocketId
  nextSocket : SocketId
  data : SocketId → ClientData
  rooms : Room → Finset SocketId
  yjsRooms : SocketId → Option (List NodeId)
  handlers : HandlerId → Option Handler
  nextHandler : HandlerId
  commands : List HandlerId
  presence : WorkspaceId → List PresenceMember
  awareness : WorkspaceId → Option Bytes
  memberships : UserId → WorkspaceId → Option Role
  passed : List (UserId × WorkspaceId × Role)
  announced : Finset TaskId

namespace State

/-- A server that has just started, over the given tables. -/
def init (nodes : NodeId → Option DocManager.NodeRow)
    (memberships : UserId → WorkspaceId → Option Role) : State where
  manager := .init nodes
  connected := ∅
  nextSocket := 0
  data _ := {}
  rooms _ := ∅
  yjsRooms _ := none
  handlers _ := none
  nextHandler := 0
  commands := []
  presence _ := []
  awareness _ := none
  memberships := memberships
  passed := []
  announced := ∅

/-! ### Rooms and emissions -/

/-- Who receives what is emitted to a room. -/
def inRoom (s : State) (room : Room) : Finset SocketId := s.rooms room ∩ s.connected

/-- `client.join(room)`. -/
def join (s : State) (socket : SocketId) (room : Room) : State :=
  { s with rooms := Function.update s.rooms room (insert socket (s.rooms room)) }

/-- `client.leave(room)`. -/
def leave (s : State) (socket : SocketId) (room : Room) : State :=
  { s with rooms := Function.update s.rooms room ((s.rooms room).erase socket) }

/-- `client.emit(event)`. -/
def emit (s : State) (socket : SocketId) (event : ServerEvent) : Output :=
  .emit ({socket} ∩ s.connected) event

/-- `client.to(room).emit(event)`. -/
def emitToOthers (s : State) (socket : SocketId) (room : Room) (event : ServerEvent) : Output :=
  .emit ((s.inRoom room).erase socket) event

/-- `server.to(room).emit(event)`. -/
def emitToRoom (s : State) (room : Room) (event : ServerEvent) : Output :=
  .emit (s.inRoom room) event

/-! ### Assignments -/

/-- Assign to fields of `client.data`. -/
def setData (s : State) (socket : SocketId) (f : ClientData → ClientData) : State :=
  { s with data := Function.update s.data socket (f (s.data socket)) }

def setMem (s : State) (mem : DocManager.Memory) : State :=
  { s with manager := { s.manager with mem := mem } }

/-- A handler is suspended. -/
def suspend (s : State) (socket : SocketId) (pending : Pending) : State :=
  { s with
    handlers := Function.update s.handlers s.nextHandler (some ⟨socket, pending⟩)
    nextHandler := s.nextHandler + 1 }

/-- The suspended handler `h` goes on to its next await. -/
def resuspend (s : State) (h : HandlerId) (socket : SocketId) (pending : Pending) : State :=
  { s with handlers := Function.update s.handlers h (some ⟨socket, pending⟩) }

/-- The handler `h` has ended. -/
def finish (s : State) (h : HandlerId) : State :=
  { s with handlers := Function.update s.handlers h none }

/-- The handler `h` issues a Redis command. -/
def issue (s : State) (h : HandlerId) : State :=
  { s with commands := s.commands ++ [h] }

end State

end AideepWebsocket.Gateway
