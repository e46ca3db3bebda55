import AideepWebsocket.App.State
import AideepWebsocket.Redis.Services

/-!
# Who looks at the tables

The model keeps what is in Redis in fields of the gateway, of the manager and of the
service.  Only the replies of Redis and the lapses of keys look at these fields: any other
step is the same over any tables, and leaves them as they are (`step_intoManager`,
`handle_intoGateway`, `step_intoService`, `handle_into`).

So it does not matter where the tables are kept, as long as the replies say the same.
-/

namespace AideepWebsocket.Redis

open Library
open DocManager (FlushCaller Task TaskId)
open Gateway (Bytes PresenceMember)
open NodeContent (NodeContentOperationBody)

namespace Tables

variable (T : Tables)

/-- The manager, over these tables. -/
def intoManager (m : DocManager.State) : DocManager.State :=
  { m with redis := { m.redis with store := T.docs }, embedJobs := T.jobs }

/-- The gateway, over these tables. -/
def intoGateway (g : Gateway.State) : Gateway.State :=
  { g with
    manager := T.intoManager g.manager
    presence := T.presence
    awareness := T.awareness }

/-- The service, over these tables. -/
def intoService (s : NodeContent.State) : NodeContent.State :=
  { s with cache := T.cache, nodes := T.nodes }

/-- The process, over these tables. -/
def into (s : App.State) : App.State where
  gateway := T.intoGateway s.gateway
  service := T.intoService s.service
  appends := s.appends

end Tables

variable {T : Tables} {lex : Lexical} {m m' : DocManager.State}

/-! ### The manager -/

/-- The events with which the manager looks at the tables. -/
def commands : DocManager.Event → Bool
  | .redisReply _ | .redisExpire _ | .enqueued .. => true
  | _ => false

namespace IntoManager

open DocManager.State

/-- The start of a load looks at memory, and issues its command. -/
theorem getOrCreateDoc (nodeId : NodeId) (workspaceId : WorkspaceId) :
    (T.intoManager m).getOrCreateDoc nodeId workspaceId =
      (T.intoManager (m.getOrCreateDoc nodeId workspaceId).1,
        (m.getOrCreateDoc nodeId workspaceId).2) := by
  unfold DocManager.State.getOrCreateDoc
  cases hdoc : m.mem.docs nodeId with
  | some r => simp [Tables.intoManager, hdoc]
  | none =>
      cases hload : m.loader.loading nodeId with
      | some l => simp [Tables.intoManager, hdoc, hload]
      | none => simp [Tables.intoManager, hdoc, hload, DocManager.State.issue]

/-- The `finally` of a load changes the map of loads. -/
theorem finishAwait (nodeId : NodeId) (await : DocManager.Await) :
    (T.intoManager m).finishAwait nodeId await = T.intoManager (m.finishAwait nodeId await) := by
  unfold DocManager.State.finishAwait
  split <;> rfl

/-- A flush is only queued here. -/
theorem flushDoc (nodeId : NodeId) (caller : FlushCaller) :
    (T.intoManager m).flushDoc nodeId caller = T.intoManager (m.flushDoc nodeId caller) := rfl

/-- The last leave queues a flush and arms a timer. -/
theorem removeClient (nodeId : NodeId) (socketId : SocketId) :
    (T.intoManager m).removeClient nodeId socketId =
      T.intoManager (m.removeClient nodeId socketId) := by
  have hmem : (T.intoManager m).mem = m.mem := rfl
  unfold DocManager.State.removeClient
  rw [hmem]
  split
  · rfl
  · dsimp only
    split <;> rfl

/-- A worker of `flushAll` takes the next id of its list. -/
theorem nextFlush (call : ℕ) :
    (T.intoManager m).nextFlush call = T.intoManager (m.nextFlush call) := by
  have hcalls : (T.intoManager m).flushAlls = m.flushAlls := rfl
  unfold DocManager.State.nextFlush
  rw [hcalls]
  split
  · rfl
  · split <;> rfl

/-- The list is that of the documents in memory. -/
theorem flushAll : (T.intoManager m).flushAll = T.intoManager m.flushAll := by
  have hiterate (n call : ℕ) (m : DocManager.State) :
      (fun s : DocManager.State => s.nextFlush call)^[n] (T.intoManager m) =
        T.intoManager ((fun s : DocManager.State => s.nextFlush call)^[n] m) :=
    (Function.Semiconj.iterate_right (f := T.intoManager) (fun m => (nextFlush call).symm) n m).symm
  exact hiterate (min DocManager.FLUSH_CONCURRENCY m.mem.keys.length) m.nextFlushAll
    { m with
      flushAlls := Function.update m.flushAlls m.nextFlushAll
        (some ⟨m.mem.keys, 0, min DocManager.FLUSH_CONCURRENCY m.mem.keys.length⟩)
      nextFlushAll := m.nextFlushAll + 1 }

/-- A flush issues its `SET` and its transaction; both end later. -/
theorem flushDocLocked (t : TaskId) (x : Task) (nodeId : NodeId) (knownMarkdown : Option String) :
    (T.intoManager m).flushDocLocked lex t x nodeId knownMarkdown =
      T.intoManager (m.flushDocLocked lex t x nodeId knownMarkdown) := by
  have hmem : (T.intoManager m).mem = m.mem := rfl
  unfold DocManager.State.flushDocLocked
  rw [hmem]
  split
  · rfl
  · dsimp only
    split
    · rfl
    · split
      · rfl
      · split <;> rfl

/-- `NodeGoneError` drops the document and issues a `DEL`. -/
theorem handleFlushError (nodeId : NodeId) (failure : DocManager.Failure) :
    (T.intoManager m).handleFlushError nodeId failure =
      T.intoManager (m.handleFlushError nodeId failure) := by
  unfold DocManager.State.handleFlushError
  split <;> rfl

/-- Whether an await has settled is a matter of the loads. -/
theorem awaited (await : DocManager.Await) :
    (T.intoManager m).awaited await = m.awaited await :=
  rfl

/-- A task that gets its turn commands nothing until its flush does. -/
theorem startTask (t : TaskId) :
    (T.intoManager m).startTask lex t = (m.startTask lex t).map T.intoManager := by
  have hqueue : (T.intoManager m).queue = m.queue := rfl
  unfold DocManager.State.startTask
  rw [hqueue]
  split
  · rfl
  · split
    · split
      · split
        · rw [flushDocLocked]
          rfl
        · rw [getOrCreateDoc]
          rfl
      · rfl
    · rfl

/-- An append goes on with the document that it has awaited. -/
theorem resumeAppend (t : TaskId) (clientId : ClientId) :
    (T.intoManager m).resumeAppend lex t clientId =
      (m.resumeAppend lex t clientId).map T.intoManager := by
  have hqueue : (T.intoManager m).queue = m.queue := rfl
  have hmem : (T.intoManager m).mem = m.mem := rfl
  unfold DocManager.State.resumeAppend
  rw [hqueue]
  split
  · rfl
  · next entry _ =>
    split
    · next await _ _ _ _ _ =>
      rw [awaited]
      split
      · rfl
      · rw [finishAwait]
        rfl
      · next r _ =>
          have hmem' : (T.intoManager (m.finishAwait entry.key await)).mem =
              (m.finishAwait entry.key await).mem := rfl
          rw [finishAwait, hmem]
          dsimp only
          rw [hmem']
          split
          · rfl
          · split
            · rfl
            · exact congrArg some (flushDocLocked
                (m := { m.finishAwait entry.key await with mem := _ }) t _ entry.key _)
    · rfl

/-- A flush whose stores have ended goes on to the queue of jobs. -/
theorem continueFlush (t : TaskId) :
    (T.intoManager m).continueFlush t = (m.continueFlush t).map T.intoManager := by
  have hqueue : (T.intoManager m).queue = m.queue := rfl
  have hsaves : (T.intoManager m).saves = m.saves := rfl
  have hmem : (T.intoManager m).mem = m.mem := rfl
  unfold DocManager.State.continueFlush
  rw [hqueue, hsaves, hmem]
  split
  · rfl
  · split
    · rfl
    · rfl
    · rfl
    · split
      · dsimp only
        split <;> rfl
      · rfl
    · rfl

/-- The caller of a task goes on in memory. -/
theorem resumeTask (t : TaskId) :
    (T.intoManager m).resumeTask t = (m.resumeTask t).map T.intoManager := by
  have hqueue : (T.intoManager m).queue = m.queue := rfl
  unfold DocManager.State.resumeTask
  rw [hqueue]
  split
  · rfl
  · next entry _ =>
      split
      · next result _ =>
          dsimp only
          split
          · rfl
          · next caller _ =>
              cases result with
              | ok persisted =>
                  cases caller with
                  | flushAll call =>
                      exact congrArg some (nextFlush (m :=
                        ({ m with queue := m.queue.dropTail t } : DocManager.State).setTask t
                          { entry.payload with phase := .returned (.ok persisted) }) call)
                  | _ => rfl
              | error failure =>
                  have herror := handleFlushError (T := T) (m :=
                    ({ m with queue := m.queue.dropTail t } : DocManager.State).setTask t
                      { entry.payload with phase := .returned (.error failure) }) entry.key failure
                  cases caller with
                  | flushAll call =>
                      exact congrArg some ((congrArg (fun s => s.nextFlush call) herror).trans
                        (nextFlush call))
                  | _ => exact congrArg some herror
      · rfl

/-- A load that has missed asks the database; any other answer goes into memory. -/
theorem continueLoad (l : DocManager.LoadId) :
    (T.intoManager m).continueLoad l = (m.continueLoad l).map T.intoManager := by
  have hloader : (T.intoManager m).loader = m.loader := rfl
  unfold DocManager.State.continueLoad
  rw [hloader]
  split
  · rfl
  · split <;> rfl

/-- What the database answers is read off the rows, which are no table. -/
theorem dbReply (l : DocManager.LoadId) (ok : Bool) (clientId : ClientId) :
    (T.intoManager m).dbReply lex l ok clientId =
      (m.dbReply lex l ok clientId).map T.intoManager := by
  have hloader : (T.intoManager m).loader = m.loader := rfl
  unfold DocManager.State.dbReply
  rw [hloader]
  split <;> rfl

/-- A save that fails rejects its flush. -/
theorem rejectSave (save : DocManager.SaveId) (c : DocManager.SaveCall) (committed : Bool)
    (failure : DocManager.Failure) :
    (T.intoManager m).rejectSave save c committed failure =
      T.intoManager (m.rejectSave save c committed failure) := by
  have hqueue : (T.intoManager m).queue = m.queue := rfl
  cases htask : m.queue.task c.task with
  | none =>
      simp only [DocManager.State.rejectSave, hqueue, htask]
      rfl
  | some entry =>
      simp only [DocManager.State.rejectSave, hqueue, htask]
      split
      · split <;> rfl
      · rfl

/-- The transaction writes rows. -/
theorem updateNodeRow (save : DocManager.SaveId) (reply : DocManager.Reply) (now : ℕ) :
    (T.intoManager m).updateNodeRow save reply now =
      (m.updateNodeRow save reply now).map T.intoManager := by
  have hsaves : (T.intoManager m).saves = m.saves := rfl
  have hnodes : (T.intoManager m).nodes = m.nodes := rfl
  unfold DocManager.State.updateNodeRow
  rw [hsaves, hnodes]
  split
  · rfl
  · split
    · split
      · split
        · rw [rejectSave]
          rfl
        · dsimp only
          split
          · rfl
          · exact congrArg some (rejectSave
              (m := { m with nodes := Function.update m.nodes _ (some _) }) save _ true .database)
      · rw [rejectSave]
        rfl
    · rfl

/-- The attachments are rows too. -/
theorem attachmentsSynced (save : DocManager.SaveId) (ok : Bool) :
    (T.intoManager m).attachmentsSynced save ok =
      (m.attachmentsSynced save ok).map T.intoManager := by
  have hsaves : (T.intoManager m).saves = m.saves := rfl
  unfold DocManager.State.attachmentsSynced
  rw [hsaves]
  split
  · rfl
  · split
    · split
      · rfl
      · rw [rejectSave]
        rfl
    · rfl

/-- A timer queues a flush or drops a document. -/
theorem fireTimer (timer : DocManager.TimerId) :
    (T.intoManager m).fireTimer timer = (m.fireTimer timer).map T.intoManager := by
  have hmem : (T.intoManager m).mem = m.mem := rfl
  unfold DocManager.State.fireTimer
  rw [hmem]
  split
  · rfl
  · dsimp only
    split <;> rfl

/-- The shutdown ends when its flushes have. -/
theorem finishDestroy :
    (T.intoManager m).finishDestroy = m.finishDestroy.map T.intoManager := by
  have hshutdown : (T.intoManager m).shutdown = m.shutdown := rfl
  have hcalls : (T.intoManager m).flushAlls = m.flushAlls := rfl
  unfold DocManager.State.finishDestroy
  rw [hshutdown, hcalls]
  split
  · split <;> rfl
  · rfl

end IntoManager

/-- **A step of the manager that is no command of Redis** neither reads the tables nor
writes to them. -/
theorem step_intoManager {e : DocManager.Event} (he : commands e = false) :
    DocManager.step lex (T.intoManager m) e = (DocManager.step lex m e).map T.intoManager := by
  cases e with
  | redisReply reply => cases he
  | redisExpire nodeId => cases he
  | enqueued t ok => cases he
  | getOrCreateDoc nodeId workspaceId =>
      simp only [DocManager.step, IntoManager.getOrCreateDoc]
      rfl
  | resumeGet get =>
      have hloader : (T.intoManager m).loader = m.loader := rfl
      simp only [DocManager.step, hloader, IntoManager.awaited]
      split
      · rfl
      · split
        · rfl
        · rw [IntoManager.finishAwait]
          rfl
  | addClient nodeId socketId => rfl
  | removeClient nodeId socketId => simp [DocManager.step, IntoManager.removeClient]
  | applyToDoc nodeId update => rfl
  | scheduleSave nodeId userId => rfl
  | appendMarkdown nodeId workspaceId markdown userId => rfl
  | cleanupNode nodeId => rfl
  | flushInterval =>
      have hshutdown : (T.intoManager m).shutdown = m.shutdown := rfl
      simp only [DocManager.step, hshutdown, IntoManager.flushAll]
      split <;> rfl
  | onModuleDestroy =>
      have hshutdown : (T.intoManager m).shutdown = m.shutdown := rfl
      simp only [DocManager.step, hshutdown, DocManager.State.onModuleDestroy, IntoManager.flushAll]
      split <;> rfl
  | finishDestroy => exact IntoManager.finishDestroy
  | fireTimer timer => exact IntoManager.fireTimer timer
  | continueLoad l => exact IntoManager.continueLoad l
  | dbReply l ok clientId => exact IntoManager.dbReply l ok clientId
  | startTask t => exact IntoManager.startTask t
  | resumeAppend t clientId => exact IntoManager.resumeAppend t clientId
  | continueFlush t => exact IntoManager.continueFlush t
  | resumeTask t => exact IntoManager.resumeTask t
  | updateNodeRow save reply now => exact IntoManager.updateNodeRow save reply now
  | attachmentsSynced save ok => exact IntoManager.attachmentsSynced save ok
  | writeNode nodeId row =>
      have hnodes : (T.intoManager m).nodes = m.nodes := rfl
      simp only [DocManager.step, hnodes]
      split <;> rfl
  | deleteNode nodeId => rfl
  | restart => rfl

/-! ### The gateway -/

variable {verify : String → Option UserId} {g : Gateway.State}

/-- The events with which the gateway looks at the tables. -/
def gatewayCommands : Gateway.Event → Bool
  | .redisReply _ | .awarenessExpire _ | .presenceExpire _ => true
  | .manager e => commands e
  | _ => false

/-- The gateway that a step has left, over the tables. -/
def Tables.intoResult (T : Tables) (p : Gateway.State × List Gateway.Output) :
    Gateway.State × List Gateway.Output := (T.intoGateway p.1, p.2)

namespace IntoGateway

open Gateway (HandlerId Role)

/-- A connection verifies its token and asks nothing. -/
theorem handleConnection (token : Option String) :
    (T.intoGateway g).handleConnection verify token =
      T.intoGateway (g.handleConnection verify token) := by
  unfold Gateway.State.handleConnection
  split <;> rfl

/-- A socket leaves its nodes one after the other. -/
theorem removeClients (nodeIds : List NodeId) (socket : SocketId) (m : DocManager.State) :
    nodeIds.foldl (fun m nodeId => m.removeClient nodeId socket) (T.intoManager m) =
      T.intoManager (nodeIds.foldl (fun m nodeId => m.removeClient nodeId socket) m) := by
  induction nodeIds generalizing m with
  | nil => rfl
  | cons nodeId nodeIds ih => rw [List.foldl_cons, IntoManager.removeClient, ih, List.foldl_cons]

/-- It leaves all of them when it is cleaned up. -/
theorem cleanupYjs (socket : SocketId) :
    (T.intoGateway g).cleanupYjs socket = T.intoGateway (g.cleanupYjs socket) := by
  have hrooms : (T.intoGateway g).yjsRooms = g.yjsRooms := rfl
  have hmanager : (T.intoGateway g).manager = T.intoManager g.manager := rfl
  unfold Gateway.State.cleanupYjs
  rw [hrooms, hmanager]
  split
  · rfl
  · rw [removeClients]
    rfl

/-- A disconnect issues its `HDEL`, which ends later. -/
theorem handleDisconnect (socket : SocketId) :
    (T.intoGateway g).handleDisconnect socket = T.intoGateway (g.handleDisconnect socket) := by
  have hdata : (T.intoGateway g).data = g.data := rfl
  unfold Gateway.State.handleDisconnect
  rw [hdata]
  dsimp only
  split
  · rfl
  · exact cleanupYjs (g := { g with
      connected := g.connected.erase socket
      rooms := fun room => (g.rooms room).erase socket }) socket

/-- `join_workspace` asks for the membership first. -/
theorem handleJoin (socket : SocketId) (workspaceId : WorkspaceId) (userName color : String)
    (profile : Option String) :
    (T.intoGateway g).handleJoin socket workspaceId userName color profile =
      T.intoResult (g.handleJoin socket workspaceId userName color profile) := by
  have hdata : (T.intoGateway g).data = g.data := rfl
  unfold Gateway.State.handleJoin
  rw [hdata]
  split <;> rfl

/-- `yjs:join` asks the manager for the document. -/
theorem loadYjsDoc (socket : SocketId) (workspaceId : WorkspaceId) (nodeId : NodeId)
    (membership : Option Role) :
    (T.intoGateway g).loadYjsDoc socket workspaceId nodeId membership =
      T.intoResult (g.loadYjsDoc socket workspaceId nodeId membership) := by
  have hmanager : (T.intoGateway g).manager = T.intoManager g.manager := rfl
  unfold Gateway.State.loadYjsDoc
  rw [hmanager, IntoManager.getOrCreateDoc]
  split <;> rfl

/-- It asks for the membership before, unless that is cached. -/
theorem handleYjsJoin (socket : SocketId) (nodeId : NodeId) :
    (T.intoGateway g).handleYjsJoin socket nodeId =
      T.intoResult (g.handleYjsJoin socket nodeId) := by
  have hdata : (T.intoGateway g).data = g.data := rfl
  unfold Gateway.State.handleYjsJoin
  rw [hdata]
  split
  · split
    · rfl
    · exact loadYjsDoc _ _ _ _
  · rfl

/-- It goes on with the membership that it has been told. -/
theorem continueYjsJoin (h : HandlerId) (socket : SocketId) (workspaceId : WorkspaceId)
    (nodeId : NodeId) (membership : Option Role) :
    (T.intoGateway g).continueYjsJoin h socket workspaceId nodeId membership =
      T.intoResult (g.continueYjsJoin h socket workspaceId nodeId membership) := by
  unfold Gateway.State.continueYjsJoin
  exact loadYjsDoc (g := (g.finish h).setData socket fun d =>
    { d with
      membershipCache := Function.update d.membershipCache workspaceId (some membership) })
    socket workspaceId nodeId membership

/-- `join_workspace` goes on by asking for the awareness. -/
theorem continueJoin (h : HandlerId) (socket : SocketId) (workspaceId : WorkspaceId)
    (member : PresenceMember) (membership : Option Role) :
    (T.intoGateway g).continueJoin h socket workspaceId member membership =
      T.intoResult (g.continueJoin h socket workspaceId member membership) := by
  unfold Gateway.State.continueJoin
  split <;> rfl

/-- A join with its document joins the room and makes the socket a client. -/
theorem resumeYjsJoin (h : HandlerId) :
    (T.intoGateway g).resumeYjsJoin h = (g.resumeYjsJoin h).map T.intoResult := by
  have hhandlers : (T.intoGateway g).handlers = g.handlers := rfl
  have hmanager : (T.intoGateway g).manager = T.intoManager g.manager := rfl
  have hgets : (T.intoManager g.manager).loader.gets = g.manager.loader.gets := rfl
  unfold Gateway.State.resumeYjsJoin
  rw [hhandlers, hmanager, hgets]
  split
  · split
    · rfl
    · rw [IntoManager.awaited, IntoManager.finishAwait]
      dsimp only
      split <;> rfl
  · rfl

/-- A message is read into the document and passed on. -/
theorem handleYjsSync (socket : SocketId) (nodeId : NodeId) (data : SyncMessage) :
    (T.intoGateway g).handleYjsSync socket nodeId data =
      T.intoResult (g.handleYjsSync socket nodeId data) := by
  have hmem : (T.intoGateway g).manager.mem = g.manager.mem := rfl
  have hdata : (T.intoGateway g).data = g.data := rfl
  unfold Gateway.State.handleYjsSync
  rw [hmem, hdata]
  split
  · rfl
  · dsimp only
    split
    · split <;> rfl
    · rfl

/-- A leave is a matter of rooms and clients. -/
theorem handleYjsLeave (socket : SocketId) (nodeId : NodeId) :
    (T.intoGateway g).handleYjsLeave socket nodeId =
      T.intoGateway (g.handleYjsLeave socket nodeId) := by
  have hrooms : (T.intoGateway g).yjsRooms = g.yjsRooms := rfl
  have hmanager : (T.intoGateway g).manager = T.intoManager g.manager := rfl
  unfold Gateway.State.handleYjsLeave
  rw [hrooms, hmanager, IntoManager.removeClient]
  dsimp only
  split <;> rfl

/-- An awareness message issues its `SET`. -/
theorem handleWsAwareness (socket : SocketId) (workspaceId : WorkspaceId) (data : Bytes) :
    (T.intoGateway g).handleWsAwareness socket workspaceId data =
      T.intoGateway (g.handleWsAwareness socket workspaceId data) := by
  have hdata : (T.intoGateway g).data = g.data := rfl
  unfold Gateway.State.handleWsAwareness
  rw [hdata]
  split <;> rfl

/-- A `workspace_event` goes to the sockets of the workspace. -/
theorem broadcast (event : Gateway.WsEvent) :
    (T.intoGateway g).broadcast event = T.intoResult (g.broadcast event) := by
  unfold Gateway.State.broadcast
  refine Prod.ext ?_ rfl
  dsimp only [Tables.intoResult]
  split <;> rfl

/-- The update of an append goes to the room of the node. -/
theorem announce (t : TaskId) :
    (T.intoGateway g).announce t = (g.announce t).map T.intoResult := by
  have hannounced : (T.intoGateway g).announced = g.announced := rfl
  have hqueue : (T.intoGateway g).manager.queue = g.manager.queue := rfl
  unfold Gateway.State.announce
  rw [hannounced, hqueue]
  split
  · rfl
  · split
    · rfl
    · split <;> rfl

/-- The membership comes from the API server, not from Redis. -/
theorem membershipReply (h : HandlerId) (ok : Bool) :
    (T.intoGateway g).membershipReply h ok = (g.membershipReply h ok).map T.intoResult := by
  have hhandlers : (T.intoGateway g).handlers = g.handlers := rfl
  unfold Gateway.State.membershipReply
  rw [hhandlers]
  dsimp only
  split
  · next socket workspaceId member _ =>
      split
      · exact congrArg some (continueJoin (g := { g with
          passed := g.passed ++ (g.memberships member.userId workspaceId).toList.map fun role =>
            (member.userId, workspaceId, role) }) h socket workspaceId member
          (g.memberships member.userId workspaceId))
      · rfl
  · next socket userId workspaceId nodeId _ =>
      split
      · exact congrArg some (continueYjsJoin (g := { g with
          passed := g.passed ++ (g.memberships userId workspaceId).toList.map fun role =>
            (userId, workspaceId, role) }) h socket workspaceId nodeId
          (g.memberships userId workspaceId))
      · rfl
  · rfl

/-- A handler goes on with what it has been answered, and reads no table itself. -/
theorem resume (h : HandlerId) (socket : SocketId) (answer : Gateway.Answer)
    (pending : Gateway.Pending) :
    (T.intoGateway g).resume h socket answer pending =
      T.intoResult (g.resume h socket answer pending) := by
  unfold Gateway.State.resume
  split
  · rfl
  · split <;> rfl
  · split <;> rfl
  · split <;> rfl
  · split <;> rfl
  · split
    · next members =>
        exact Prod.ext (cleanupYjs (g := g.finish h) socket) rfl
    · rfl
  · rfl
  · rfl

end IntoGateway

/-- **A step of the gateway that is no command of Redis** neither reads the tables nor
writes to them. -/
theorem handle_intoGateway {e : Gateway.Event} (he : gatewayCommands e = false) :
    Gateway.handle lex verify (T.intoGateway g) e =
      (Gateway.handle lex verify g e).map T.intoResult := by
  have hconnected : (T.intoGateway g).connected = g.connected := rfl
  cases e with
  | connect token => exact congrArg some (Prod.ext (IntoGateway.handleConnection token) rfl)
  | disconnect socket =>
      simp only [Gateway.handle, hconnected, IntoGateway.handleDisconnect]
      split <;> rfl
  | joinWorkspace socket workspaceId userName color profile =>
      simp only [Gateway.handle, hconnected, IntoGateway.handleJoin]
      split <;> rfl
  | nodePositionLive socket payload =>
      simp only [Gateway.handle, hconnected]
      split <;> rfl
  | yjsJoin socket nodeId =>
      simp only [Gateway.handle, hconnected, IntoGateway.handleYjsJoin]
      split <;> rfl
  | yjsSync socket nodeId data =>
      simp only [Gateway.handle, hconnected, IntoGateway.handleYjsSync]
      split <;> rfl
  | yjsAwareness socket nodeId data =>
      simp only [Gateway.handle, hconnected]
      split <;> rfl
  | yjsLeave socket nodeId =>
      simp only [Gateway.handle, hconnected, IntoGateway.handleYjsLeave]
      split <;> rfl
  | wsAwareness socket workspaceId data =>
      simp only [Gateway.handle, hconnected, IntoGateway.handleWsAwareness]
      split <;> rfl
  | membershipReply h ok => exact IntoGateway.membershipReply h ok
  | resumeYjsJoin h => exact IntoGateway.resumeYjsJoin h
  | redisReply reply => cases he
  | broadcast event => exact congrArg some (IntoGateway.broadcast event)
  | broadcastYjsUpdate nodeId update => rfl
  | announce t => exact IntoGateway.announce t
  | setMembership userId workspaceId role => rfl
  | awarenessExpire workspaceId => cases he
  | presenceExpire workspaceId => cases he
  | manager e =>
      have hmanager : (T.intoGateway g).manager = T.intoManager g.manager := rfl
      simp only [Gateway.handle, hmanager, step_intoManager he]
      split
      · cases DocManager.step lex g.manager e <;> rfl
      · rfl
  | restart => rfl

/-! ### The service -/

variable {hash : NodeContentOperationBody → String} {x : NodeContent.State}

/-- The events with which the service looks at its table. -/
def serviceCommands : NodeContent.Event → Bool
  | .redisReply .. | .claimExpire _ | .responseExpire _ => true
  | _ => false

/-- A call that has appended issues the `SET` of its response. -/
theorem appendReply_intoService (i : NodeContent.CallId) (result : NodeContent.Appended) :
    (T.intoService x).appendReply i result = (x.appendReply i result).map T.intoService := by
  have hcalls : (T.intoService x).calls = x.calls := rfl
  unfold NodeContent.State.appendReply
  rw [hcalls]
  split
  · rfl
  · split
    · rfl
    · dsimp only
      split <;> rfl
    · rfl

/-- No step of the service writes to the `nodes` table. -/
private theorem nodes_of_step {x' : NodeContent.State} {e : NodeContent.Event}
    (he : serviceCommands e = false) (hdriven : App.drivenService e = false)
    (h : NodeContent.step hash x e = some x') : x'.nodes = x.nodes := by
  cases e with
  | redisReply i reply => cases he
  | claimExpire key => cases he
  | responseExpire key => cases he
  | appendReply i result => cases hdriven
  | writeNode nodeId row => cases hdriven
  | setMembership userId workspaceId role => cases hdriven
  | execute userId workspaceId nodeId idempotencyKey body =>
      simp only [NodeContent.step] at h
      split at h <;> cases h <;> rfl
  | patch payload =>
      simp only [NodeContent.step] at h
      split at h <;> cases h <;> rfl
  | membershipReply i ok =>
      simp only [NodeContent.step, NodeContent.State.membershipReply] at h
      split at h
      · cases h
      · split at h <;> cases h
        rfl
  | nodeReply i ok =>
      simp only [NodeContent.step, NodeContent.State.nodeReply] at h
      split at h
      · cases h
      · split at h <;> cases h
        rfl

/-- **A step of the service that is no command of Redis** neither reads its table nor
writes to it; it takes the `nodes` along that it has looked at. -/
theorem step_intoService {e : NodeContent.Event} (he : serviceCommands e = false)
    (hdriven : App.drivenService e = false) (nodes : NodeId → Option DocManager.NodeRow) :
    NodeContent.step hash { T.intoService x with nodes := nodes } e =
      (NodeContent.step hash { x with nodes := nodes } e).map
        { T with nodes := nodes }.intoService := by
  have hcache : NodeContent.step hash { T.intoService x with nodes := nodes } e =
      (NodeContent.step hash { x with nodes := nodes } e).map
        fun x' => { x' with cache := T.cache } := by
    have hcalls : (T.intoService x).calls = x.calls := rfl
    cases e with
    | redisReply i reply => cases he
    | claimExpire key => cases he
    | responseExpire key => cases he
    | appendReply i result => cases hdriven
    | writeNode nodeId row => cases hdriven
    | setMembership userId workspaceId role => cases hdriven
    | execute userId workspaceId nodeId idempotencyKey body =>
        simp only [NodeContent.step]
        split <;> rfl
    | patch payload =>
        simp only [NodeContent.step]
        split <;> rfl
    | membershipReply i ok =>
        simp only [NodeContent.step, NodeContent.State.membershipReply, hcalls]
        split
        · rfl
        · split <;> rfl
    | nodeReply i ok =>
        simp only [NodeContent.step, NodeContent.State.nodeReply, hcalls]
        split
        · rfl
        · split <;> rfl
  rw [hcache]
  cases hstep : NodeContent.step hash { x with nodes := nodes } e with
  | none => rfl
  | some x' =>
      have hnodes : x'.nodes = nodes := nodes_of_step he hdriven hstep
      simp only [Option.map_some, Tables.intoService, ← hnodes]

/-! ### The process -/

variable {s : App.State}

/-- The events with which the process looks at the tables. -/
def appCommands : App.Event → Bool
  | .gateway e => gatewayCommands e
  | .service e => serviceCommands e
  | _ => false

/-- Which steps the manager takes by itself does not depend on the tables. -/
private theorem driven_into (e : Gateway.Event) : App.driven (T.into s) e = App.driven s e := rfl

/-- The service with the manager, over the tables. -/
def Tables.intoServer (T : Tables) (y : NodeContent.Server) : NodeContent.Server :=
  ⟨T.intoManager y.manager, T.intoService y.service, y.appends⟩

/-- A call that has claimed its key hands the append to the manager. -/
theorem appendMarkdown_intoServer (y : NodeContent.Server) (i : NodeContent.CallId) :
    (T.intoServer y).appendMarkdown i = T.intoServer (y.appendMarkdown i) := by
  have hcalls : (T.intoServer y).service.calls = y.service.calls := rfl
  unfold NodeContent.Server.appendMarkdown
  rw [hcalls]
  split <;> rfl

/-- The append that has ended is handed back to its call. -/
private theorem resume_intoServer (y : NodeContent.Server) (t : TaskId) (operationId : ℕ)
    (broadcasts : Bool) :
    (T.intoServer y).resume lex t operationId broadcasts =
      (y.resume lex t operationId broadcasts).map T.intoServer := by
  have happends : (T.intoServer y).appends = y.appends := rfl
  have hmanager : (T.intoServer y).manager = T.intoManager y.manager := rfl
  have hservice : (T.intoServer y).service = T.intoService y.service := rfl
  have hqueue : (T.intoManager y.manager).queue = y.manager.queue := rfl
  have hcommands : commands (.resumeTask t) = false := rfl
  unfold NodeContent.Server.resume
  simp only [happends, hmanager, hservice, hqueue, step_intoManager hcommands,
    appendReply_intoService]
  cases y.appends t with
  | none => rfl
  | some i =>
      cases y.manager.queue.task t with
      | none => rfl
      | some entry =>
          dsimp only
          split
          · next result _ =>
              cases DocManager.step lex y.manager (.resumeTask t) with
              | none => rfl
              | some manager =>
                  cases y.service.appendReply i (NodeContent.Server.appended entry.payload result
                    operationId broadcasts) <;> rfl
          · rfl

/-- In the process, its update is announced first. -/
private theorem resume_into (t : TaskId) (operationId : ℕ) (broadcasts : Bool) :
    (T.into s).resume lex t operationId broadcasts =
      (s.resume lex t operationId broadcasts).map fun p => (T.into p.1, p.2) := by
  have hserver : (T.into s).server = T.intoServer s.server := rfl
  unfold App.State.resume
  rw [hserver, resume_intoServer]
  cases s.server.resume lex t operationId broadcasts with
  | none => rfl
  | some y =>
      have hgateway : ((T.into s).setServer (T.intoServer y)).gateway =
          T.intoGateway (s.setServer y).gateway := rfl
      simp only [Option.map_some, hgateway, IntoGateway.announce]
      cases broadcasts with
      | false => rfl
      | true =>
          cases (s.setServer y).gateway.announce t <;> rfl

/-- **A step of the process that is no command of Redis** neither reads the tables nor
writes to them. -/
theorem handle_into {e : App.Event} (he : appCommands e = false) :
    ∃ nodes, App.handle lex verify hash (T.into s) e =
      (App.handle lex verify hash s e).map fun p => ({ T with nodes := nodes }.into p.1, p.2) := by
  cases e with
  | gateway e =>
      have hgateway : (T.into s).gateway = T.intoGateway s.gateway := rfl
      have hhandle : (if App.driven (T.into s) e then none
          else (Gateway.handle lex verify (T.into s).gateway e).map fun p =>
            ({ T.into s with gateway := p.1 }, p.2)) =
          (if App.driven s e then none
          else (Gateway.handle lex verify s.gateway e).map fun p =>
            ({ s with gateway := p.1 }, p.2)).map fun p => (T.into p.1, p.2) := by
        rw [driven_into, hgateway, handle_intoGateway he]
        split
        · rfl
        · cases Gateway.handle lex verify s.gateway e <;> rfl
      cases e with
      | setMembership userId workspaceId role => exact ⟨s.gateway.manager.nodes, rfl⟩
      | _ => exact ⟨T.nodes, hhandle⟩
  | service e =>
      by_cases hdriven : App.drivenService e
      · exact ⟨T.nodes, by simp [App.handle, hdriven]⟩
      · have hhandle : ((NodeContent.step hash { T.intoService s.service with
              nodes := s.gateway.manager.nodes } e).map fun service =>
                { (T.into s).server with service := service }).map
              (fun y => ((T.into s).setServer y, ([] : List Gateway.Output))) =
            (((NodeContent.step hash { s.service with nodes := s.gateway.manager.nodes } e).map
              fun service => { s.server with service := service }).map
                fun y => (s.setServer y, [])).map
                  fun p => ({ T with nodes := s.gateway.manager.nodes }.into p.1, p.2) := by
          rw [step_intoService he (Bool.eq_false_iff.mpr hdriven)]
          cases NodeContent.step hash { s.service with nodes := s.gateway.manager.nodes } e <;> rfl
        refine ⟨s.gateway.manager.nodes, ?_⟩
        cases e with
        | redisReply i reply => cases he
        | claimExpire key => cases he
        | responseExpire key => cases he
        | appendReply i result => exact absurd rfl hdriven
        | writeNode nodeId row => exact absurd rfl hdriven
        | setMembership userId workspaceId role => exact absurd rfl hdriven
        | _ => exact hhandle
  | resume t operationId broadcasts => exact ⟨T.nodes, resume_into t operationId broadcasts⟩
  | restart => exact ⟨T.nodes, rfl⟩

end AideepWebsocket.Redis
