import AideepWebsocket.Gateway.State

/-!
# The handlers of WsGateway, cut at their awaits

Each definition is the code of a handler between two awaits; it gives the new
state and what is sent.  A handler that throws just ends: the exception goes to
the framework.

Redis executes the commands of the process in the order in which they were
issued and answers them in that order, so the reply of a command and the
resumption of its handler are one step.
-/

namespace AideepWebsocket.Gateway

open Library
open DocManager (TaskId Reply)

namespace State

/-! ### Connection -/

/-- `handleConnection`; `verify` is `jwtService.verify` followed by the test of
`payload.user_id`.  A socket that is rejected is disconnected at once. -/
def handleConnection (verify : String → Option UserId) (s : State) (token : Option String) :
    State :=
  match token.bind verify with
  | none => s
  | some userId =>
      let socket := s.nextSocket
      ({ s with
          connected := insert socket s.connected
          nextSocket := socket + 1 }.setData socket fun d =>
        { d with userId := some userId }).join socket (.userRoom userId)

/-- The end of `handleDisconnect`: the socket is removed from every document it
has joined. -/
def cleanupYjs (s : State) (socket : SocketId) : State :=
  match s.yjsRooms socket with
  | none => s
  | some nodeIds =>
      { s with
        manager := nodeIds.foldl (fun m nodeId => m.removeClient nodeId socket) s.manager
        yjsRooms := Function.update s.yjsRooms socket none }

/-- `handleDisconnect`, up to its first await. -/
def handleDisconnect (s : State) (socket : SocketId) : State :=
  let s' := { s with
    connected := s.connected.erase socket
    rooms := fun room => (s.rooms room).erase socket }
  match (s.data socket).workspaceId, (s.data socket).userId with
  | some workspaceId, some userId =>
      (s'.suspend socket (.leaveRemovePresence workspaceId userId)).issue s.nextHandler
  | _, _ => s'.cleanupYjs socket

/-! ### join_workspace -/

/-- `handleJoin`, up to its first await. -/
def handleJoin (s : State) (socket : SocketId) (workspaceId : WorkspaceId)
    (userName color : String) (profile : Option String) : State × List Output :=
  match (s.data socket).userId with
  | none => (s, [.ack socket (.error "로그인이 필요합니다.")])
  | some userId =>
      (s.suspend socket (.joinCheckWorkspace workspaceId ⟨userId, userName, color, profile⟩), [])

/-- `handleJoin` resumes with the membership. -/
def continueJoin (s : State) (h : HandlerId) (socket : SocketId) (workspaceId : WorkspaceId)
    (member : PresenceMember) (membership : Option Role) : State × List Output :=
  match membership with
  | none => (s.finish h, [.ack socket (.error "워크스페이스 멤버가 아닙니다")])
  | some _ =>
      let s' := ((s.join socket (.workspace workspaceId)).setData socket fun d =>
        { d with workspaceId := some workspaceId }).join socket (.yjsWsRoom workspaceId)
      ((s'.resuspend h socket (.joinGetCachedAwareness workspaceId member)).issue h, [])

/-! ### yjs:join -/

/-- `handleYjsJoin` goes on with the membership, up to `getOrCreateDoc`. -/
def loadYjsDoc (s : State) (socket : SocketId) (workspaceId : WorkspaceId) (nodeId : NodeId)
    (membership : Option Role) : State × List Output :=
  match membership with
  | none => (s, [.ack socket (.error "워크스페이스 멤버가 아닙니다")])
  | some role =>
      let (m, await) := s.manager.getOrCreateDoc nodeId workspaceId
      ({ s with manager := m.addGet nodeId await }.suspend socket
        (.yjsGetOrCreateDoc workspaceId role nodeId m.loader.nextGet), [])

/-- `handleYjsJoin`, up to its first await: a cached membership is not queried
again. -/
def handleYjsJoin (s : State) (socket : SocketId) (nodeId : NodeId) : State × List Output :=
  match (s.data socket).userId, (s.data socket).workspaceId with
  | some userId, some workspaceId =>
      match (s.data socket).membershipCache workspaceId with
      | none => (s.suspend socket (.yjsCheckWorkspace userId workspaceId nodeId), [])
      | some membership => s.loadYjsDoc socket workspaceId nodeId membership
  | _, _ => (s, [.ack socket (.error "join_workspace 먼저 호출하세요")])

/-- `handleYjsJoin` resumes with the membership, which it caches. -/
def continueYjsJoin (s : State) (h : HandlerId) (socket : SocketId) (workspaceId : WorkspaceId)
    (nodeId : NodeId) (membership : Option Role) : State × List Output :=
  ((s.finish h).setData socket fun d =>
    { d with
      membershipCache := Function.update d.membershipCache workspaceId
        (some membership) }).loadYjsDoc socket workspaceId nodeId membership

/-- The rest of `handleYjsJoin`, once the document is there. -/
def finishYjsJoin (s : State) (socket : SocketId) (nodeId : NodeId) (readOnly : Bool)
    (doc : YDoc) : State × List Output :=
  let s' := s.join socket (.yjsRoom nodeId)
  let s' := s'.setMem (s'.manager.mem.addClient nodeId socket)
  let nodeIds := (s'.yjsRooms socket).getD []
  let s' := { s' with
    yjsRooms := Function.update s'.yjsRooms socket
      (some (if nodeId ∈ nodeIds then nodeIds else nodeIds ++ [nodeId])) }
  let s' := s'.setData socket fun d =>
    { d with yjsReadOnly := Function.update d.yjsReadOnly nodeId (some readOnly) }
  (s', [s'.emit socket (.yjsSync nodeId (.syncStep1 (encodeStateVector doc))),
    .ack socket (.joined readOnly)])

/-- `handleYjsJoin` resumes from `getOrCreateDoc`. -/
def resumeYjsJoin (s : State) (h : HandlerId) : Option (State × List Output) :=
  match s.handlers h with
  | some ⟨socket, .yjsGetOrCreateDoc _ role nodeId get⟩ =>
      match s.manager.loader.gets get with
      | none => none
      | some c =>
          let s' := { s with
            manager := (s.manager.finishAwait c.nodeId c.await).removeGet get }.finish h
          match s.manager.awaited c.await with
          | none => none
          | some (.error _) => some (s', [])
          | some (.ok r) =>
              some (s'.finishYjsJoin socket nodeId (role = .VIEWER) (s.manager.mem.heap r).doc)
  | _ => none

/-! ### The other handlers -/

/-- `handleYjsSync`. -/
def handleYjsSync (s : State) (socket : SocketId) (nodeId : NodeId) (data : SyncMessage) :
    State × List Output :=
  match s.manager.mem.docs nodeId with
  | none => (s, [])
  | some r =>
      let result := readSyncMessage (s.manager.mem.heap r).doc data
      let s' := s.setMem (s.manager.mem.modify r fun d => { d with doc := result.doc })
      let answer := result.reply.toList.map fun reply => s.emit socket (.yjsSync nodeId reply)
      if result.messageType = 2 then
        if (s.data socket).yjsReadOnly nodeId = some true then (s', answer)
        else
          (s'.setMem (s'.manager.mem.scheduleSave nodeId (s.data socket).userId),
            answer ++ [s.emitToOthers socket (.yjsRoom nodeId) (.yjsSync nodeId data)])
      else (s', answer)

/-- `handleYjsLeave`. -/
def handleYjsLeave (s : State) (socket : SocketId) (nodeId : NodeId) : State :=
  let s' := { s.leave socket (.yjsRoom nodeId) with
    manager := s.manager.removeClient nodeId socket }
  match s.yjsRooms socket with
  | none => s'
  | some nodeIds =>
      let nodeIds := nodeIds.erase nodeId
      { s' with
        yjsRooms := Function.update s'.yjsRooms socket
          (if nodeIds = [] then none else some nodeIds) }

/-- `handleWsAwareness`, up to its await. -/
def handleWsAwareness (s : State) (socket : SocketId) (workspaceId : WorkspaceId)
    (data : Bytes) : State :=
  if (s.data socket).workspaceId = some workspaceId then
    (s.suspend socket (.cacheAwareness workspaceId data)).issue s.nextHandler
  else s

/-- `broadcast`. -/
def broadcast (s : State) (event : WsEvent) : State × List Output :=
  let room := s.inRoom (.workspace event.workspaceId)
  let target :=
    match event.userId with
    | some userId =>
        if event.type ∈ ECHO_SUPPRESSED_TYPES then room \ s.inRoom (.userRoom userId) else room
    | none => room
  (if event.type = .NODE_DELETE then
      { s with manager := s.manager.cleanupNode event.nodeId } else s,
    [.emit target (.workspaceEvent event)])

/-- `broadcastYjsUpdate`. -/
def broadcastYjsUpdate (s : State) (nodeId : NodeId) (update : YDoc) : Output :=
  s.emitToRoom (.yjsRoom nodeId) (.yjsSync nodeId (.update update))

/-- The caller of `appendMarkdown` resumes with its result, and broadcasts the
update. -/
def announce (s : State) (t : TaskId) : Option (State × List Output) :=
  if t ∈ s.announced then none
  else
    match s.manager.queue.task t with
    | none => none
    | some e =>
        match e.payload.phase, e.payload.update with
        | .returned (.ok _), some update =>
            some ({ s with announced := insert t s.announced },
              [s.broadcastYjsUpdate e.key update])
        | _, _ => none

/-! ### Replies -/

/-- A membership query answers, or rejects. -/
def membershipReply (s : State) (h : HandlerId) (ok : Bool) : Option (State × List Output) :=
  let check (userId : UserId) (workspaceId : WorkspaceId) : State × Option Role :=
    let membership := s.memberships userId workspaceId
    ({ s with
        passed := s.passed ++ membership.toList.map fun role => (userId, workspaceId, role) },
      membership)
  match s.handlers h with
  | some ⟨socket, .joinCheckWorkspace workspaceId member⟩ =>
      if ok then
        let (s', membership) := check member.userId workspaceId
        some (s'.continueJoin h socket workspaceId member membership)
      else some (s.finish h, [])
  | some ⟨socket, .yjsCheckWorkspace userId workspaceId nodeId⟩ =>
      if ok then
        let (s', membership) := check userId workspaceId
        some (s'.continueYjsJoin h socket workspaceId nodeId membership)
      else some (s.finish h, [])
  | _ => none

/-- `upsertPresence` writes one field of the hash. -/
def hSet (members : List PresenceMember) (member : PresenceMember) : List PresenceMember :=
  if members.any fun m => m.userId = member.userId then
    members.map fun m => if m.userId = member.userId then member else m
  else members ++ [member]

/-- `removePresence` deletes one field of the hash. -/
def hDel (members : List PresenceMember) (userId : UserId) : List PresenceMember :=
  members.filter fun m => m.userId ≠ userId

/-- The oldest Redis command of a handler ends with `reply`, and the handler
resumes. -/
def redisReply (s : State) (reply : Reply) : Option (State × List Output) :=
  match s.commands with
  | [] => none
  | h :: rest =>
      let s := { s with commands := rest }
      match s.handlers h with
      | none => some (s, [])
      | some ⟨socket, pending⟩ =>
          match pending with
          | .joinGetCachedAwareness workspaceId member =>
              -- a failure is read as a miss, and so is an empty value
              let cached :=
                if reply = .ok then (s.awareness workspaceId).filter (· ≠ []) else none
              some ((s.resuspend h socket (.joinUpsertPresence workspaceId member)).issue h,
                cached.toList.map fun data => s.emit socket (.yjsWsAwareness workspaceId data))
          | .joinUpsertPresence workspaceId member =>
              let s' := if reply.executed then
                { s with
                  presence := Function.update s.presence workspaceId
                    (hSet (s.presence workspaceId) member) }
                else s
              if reply = .ok then
                some ((s'.resuspend h socket (.joinExpirePresence workspaceId)).issue h, [])
              else some (s'.finish h, [])
          | .joinExpirePresence workspaceId =>
              if reply = .ok then
                some ((s.resuspend h socket (.joinListPresence workspaceId)).issue h, [])
              else some (s.finish h, [])
          | .joinListPresence workspaceId =>
              if reply = .ok then
                some (s.finish h, [s.emitToRoom (.workspace workspaceId)
                    (.presenceState workspaceId (s.presence workspaceId)), .ack socket .ok])
              else some (s.finish h, [])
          | .leaveRemovePresence workspaceId userId =>
              let s' := if reply.executed then
                { s with
                  presence := Function.update s.presence workspaceId
                    (hDel (s.presence workspaceId) userId) }
                else s
              if reply = .ok then
                some ((s'.resuspend h socket (.leaveListPresence workspaceId)).issue h, [])
              else some (s'.finish h, [])
          | .leaveListPresence workspaceId =>
              if reply = .ok then
                some ((s.finish h).cleanupYjs socket, [s.emitToRoom (.workspace workspaceId)
                  (.presenceState workspaceId (s.presence workspaceId))])
              else some (s.finish h, [])
          | .cacheAwareness workspaceId data =>
              -- a failure is only logged
              let s' := if reply.executed then
                { s with awareness := Function.update s.awareness workspaceId (some data) }
                else s
              some (s'.finish h, [s.emitToOthers socket (.yjsWsRoom workspaceId)
                (.yjsWsAwareness workspaceId data)])
          | _ => some (s, [])

/-- The process ends and a new one starts: every connection is lost. -/
def restart (s : State) : State :=
  { s with
    manager := s.manager.restart
    connected := ∅
    rooms := fun _ => ∅
    yjsRooms := fun _ => none
    handlers := fun _ => none
    commands := [] }

end State

/-! ### The step function -/

/-- How the event loop may enter the gateway, or the world outside may move. -/
inductive Event
  | connect (token : Option String)
  | disconnect (socket : SocketId)
  | joinWorkspace (socket : SocketId) (workspaceId : WorkspaceId) (userName color : String)
      (profile : Option String)
  | nodePositionLive (socket : SocketId) (payload : NodePosition)
  | yjsJoin (socket : SocketId) (nodeId : NodeId)
  | yjsSync (socket : SocketId) (nodeId : NodeId) (data : SyncMessage)
  | yjsAwareness (socket : SocketId) (nodeId : NodeId) (data : Bytes)
  | yjsLeave (socket : SocketId) (nodeId : NodeId)
  | wsAwareness (socket : SocketId) (workspaceId : WorkspaceId) (data : Bytes)
  | membershipReply (h : HandlerId) (ok : Bool)
  | resumeYjsJoin (h : HandlerId)
  | redisReply (reply : Reply)
  | broadcast (event : WsEvent)
  | broadcastYjsUpdate (nodeId : NodeId) (update : YDoc)
  | announce (t : TaskId)
  | setMembership (userId : UserId) (workspaceId : WorkspaceId) (role : Option Role)
  | awarenessExpire (workspaceId : WorkspaceId)
  | presenceExpire (workspaceId : WorkspaceId)
  /-- A step of the manager that the gateway has no part in. -/
  | manager (e : DocManager.Event)
  | restart
  deriving DecidableEq

/-- The events of the manager that the gateway does not cause itself. -/
def internal : DocManager.Event → Bool
  | .getOrCreateDoc _ _ | .resumeGet _ | .addClient _ _ | .removeClient _ _ => false
  | .applyToDoc _ _ | .scheduleSave _ _ | .cleanupNode _ | .restart => false
  | _ => true

variable (lex : Lexical) (verify : String → Option UserId)

open State in
/-- One step of the gateway, with what it sends.  Only a connected socket sends
messages. -/
def handle (s : State) : Event → Option (State × List Output)
  | .connect token => some (s.handleConnection verify token, [])
  | .disconnect socket =>
      if socket ∈ s.connected then some (s.handleDisconnect socket, []) else none
  | .joinWorkspace socket workspaceId userName color profile =>
      if socket ∈ s.connected then
        some (s.handleJoin socket workspaceId userName color profile) else none
  | .nodePositionLive socket payload =>
      if socket ∈ s.connected then
        some (s, [s.emitToOthers socket (.workspace payload.workspaceId)
          (.nodePositionLive payload)]) else none
  | .yjsJoin socket nodeId =>
      if socket ∈ s.connected then some (s.handleYjsJoin socket nodeId) else none
  | .yjsSync socket nodeId data =>
      if socket ∈ s.connected then some (s.handleYjsSync socket nodeId data) else none
  | .yjsAwareness socket nodeId data =>
      if socket ∈ s.connected then
        some (s, [s.emitToOthers socket (.yjsRoom nodeId) (.yjsAwareness nodeId data)]) else none
  | .yjsLeave socket nodeId =>
      if socket ∈ s.connected then some (s.handleYjsLeave socket nodeId, []) else none
  | .wsAwareness socket workspaceId data =>
      if socket ∈ s.connected then some (s.handleWsAwareness socket workspaceId data, [])
      else none
  | .membershipReply h ok => s.membershipReply h ok
  | .resumeYjsJoin h => s.resumeYjsJoin h
  | .redisReply reply => s.redisReply reply
  | .broadcast event => some (s.broadcast event)
  | .broadcastYjsUpdate nodeId update => some (s, [s.broadcastYjsUpdate nodeId update])
  | .announce t => s.announce t
  | .setMembership userId workspaceId role =>
      some ({ s with
          memberships := Function.update s.memberships userId
            (Function.update (s.memberships userId) workspaceId role) }, [])
  | .awarenessExpire workspaceId =>
      some ({ s with awareness := Function.update s.awareness workspaceId none }, [])
  | .presenceExpire workspaceId =>
      some ({ s with presence := Function.update s.presence workspaceId [] }, [])
  | .manager e =>
      if internal e then
        (DocManager.step lex s.manager e).map fun m => ({ s with manager := m }, [])
      else none
  | .restart => some (s.restart, [])

/-- One step of the gateway. -/
def step (s : State) (e : Event) : Option State := (handle lex verify s e).map Prod.fst

/-- What a step of the gateway sends. -/
def outputs (s : State) (e : Event) : List Output :=
  ((handle lex verify s e).map Prod.snd).getD []

variable {lex verify}

theorem step_eq_some {s s' : State} {e : Event} :
    step lex verify s e = some s' ↔
      handle lex verify s e = some (s', outputs lex verify s e) := by
  unfold step outputs
  cases handle lex verify s e with
  | none => simp
  | some p => simp [Prod.ext_iff]

theorem handleYjsSync_of_step {s s' : State} {socket : SocketId} {nodeId : NodeId}
    {data : SyncMessage}
    (h : step lex verify s (.yjsSync socket nodeId data) = some s') :
    s.handleYjsSync socket nodeId data =
      (s', outputs lex verify s (.yjsSync socket nodeId data)) := by
  rw [step_eq_some, handle] at h
  split at h
  · exact Option.some.inj h
  · cases h

/-! ### Pieces of runs

The results about runs are tried on the node `1` of workspace `7`, whose document
is loaded from empty stores. -/

/-- A table of memberships with the given rows. -/
def members (rows : List (UserId × WorkspaceId × Role)) (userId : UserId)
    (workspaceId : WorkspaceId) : Option Role :=
  (rows.find? fun row => row.1 = userId ∧ row.2.1 = workspaceId).map fun row => row.2.2

/-- Two tokens, of two users. -/
def plainToken (token : String) : Option UserId :=
  if token = "token of 8" then some 8 else if token = "token of 9" then some 9 else none

/-- The socket connects and joins the workspace; `h` is the next handler. -/
def joinSession (socket : SocketId) (token : String) (workspaceId : WorkspaceId)
    (h : HandlerId) : List Event :=
  [.connect (some token), .joinWorkspace socket workspaceId "" "" none, .membershipReply h true,
    .redisReply .ok, .redisReply .ok, .redisReply .ok, .redisReply .ok]

/-- The socket asks to join node `1`, which nobody has opened yet, and the
document is loaded; `h` is the next handler. -/
def loadNode (socket : SocketId) (h : HandlerId) : List Event :=
  [.yjsJoin socket 1, .membershipReply h true, .manager (.redisReply .ok),
    .manager (.continueLoad 0), .manager (.dbReply 0 true 0), .manager (.continueLoad 0)]

/-- The join completes. -/
def openNode (socket : SocketId) (h : HandlerId) : List Event :=
  loadNode socket h ++ [.resumeYjsJoin (h + 1)]

end AideepWebsocket.Gateway
