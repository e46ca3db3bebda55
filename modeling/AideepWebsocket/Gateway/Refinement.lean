import AideepWebsocket.DocManager.Ownership
import AideepWebsocket.Gateway.Handlers

/-!
# Every step of the gateway is a run of the manager

The gateway changes the manager only through its methods.  `managerEvents` lists
the calls that a step of the gateway makes, and `exec_manager` says that the
manager of the state after is what these calls make of the manager before.  So
the manager of a reachable gateway is a reachable manager, and every invariant of
the manager holds in it.
-/

namespace AideepWebsocket.Gateway

open Library
open DocManager (DocRef)

variable {lex : Lexical} {verify : String → Option UserId} {s s' : State} {e : Event}

/-! ### The calls of a step -/

namespace State

/-- `cleanupYjs` calls `removeClient` for each node the socket has joined. -/
def leaveEvents (s : State) (socket : SocketId) : List DocManager.Event :=
  ((s.yjsRooms socket).getD []).map fun nodeId => .removeClient nodeId socket

/-- `loadYjsDoc` calls `getOrCreateDoc` for a member. -/
def loadEvents (workspaceId : WorkspaceId) (nodeId : NodeId) :
    Option Role → List DocManager.Event
  | none => []
  | some _ => [.getOrCreateDoc nodeId workspaceId]

/-- A managed document takes in what the message carries, and an Update that is
not of a VIEWER is saved. -/
def syncEvents (s : State) (socket : SocketId) (nodeId : NodeId) (data : SyncMessage) :
    List DocManager.Event :=
  if s.manager.mem.docs nodeId = none then []
  else .applyToDoc nodeId data.changes ::
    if data.messageType = 2 ∧ (s.data socket).yjsReadOnly nodeId ≠ some true then
      [.scheduleSave nodeId (s.data socket).userId] else []

/-- The calls with which `handleYjsJoin` resumes. -/
def resumeEvents (s : State) (h : HandlerId) : List DocManager.Event :=
  match s.handlers h with
  | some ⟨socket, .yjsGetOrCreateDoc _ _ nodeId get⟩ =>
      .resumeGet get ::
        match (s.manager.loader.gets get).bind fun c => s.manager.awaited c.await with
        | some (.ok _) => [.addClient nodeId socket]
        | _ => []
  | _ => []

/-- The calls that a step of the gateway makes. -/
def managerEvents (s : State) : Event → List DocManager.Event
  | .disconnect socket =>
      match (s.data socket).workspaceId, (s.data socket).userId with
      | some _, some _ => []
      | _, _ => s.leaveEvents socket
  | .yjsJoin socket nodeId =>
      match (s.data socket).userId, (s.data socket).workspaceId with
      | some _, some workspaceId =>
          match (s.data socket).membershipCache workspaceId with
          | none => []
          | some membership => loadEvents workspaceId nodeId membership
      | _, _ => []
  | .yjsSync socket nodeId data => s.syncEvents socket nodeId data
  | .yjsLeave socket nodeId => [.removeClient nodeId socket]
  | .membershipReply h ok =>
      match s.handlers h with
      | some ⟨_, .yjsCheckWorkspace userId workspaceId nodeId⟩ =>
          if ok then loadEvents workspaceId nodeId (s.memberships userId workspaceId) else []
      | _ => []
  | .resumeYjsJoin h => s.resumeEvents h
  | .redisReply reply =>
      match s.commands.head?.bind s.handlers with
      | some ⟨socket, .leaveListPresence _⟩ => if reply = .ok then s.leaveEvents socket else []
      | _ => []
  | .broadcast event => if event.type = .NODE_DELETE then [.cleanupNode event.nodeId] else []
  | .manager e => [e]
  | .restart => [.restart]
  | _ => []

end State

/-- What the gateway may call in a step `e`. -/
inductive ManagerCall (e : Event) : DocManager.Event → Prop
  | getOrCreateDoc (n : NodeId) (ws : WorkspaceId) : ManagerCall e (.getOrCreateDoc n ws)
  | resumeGet (get : ℕ) : ManagerCall e (.resumeGet get)
  | addClient (n : NodeId) (socket : SocketId) : ManagerCall e (.addClient n socket)
  | removeClient (n : NodeId) (socket : SocketId) : ManagerCall e (.removeClient n socket)
  | cleanupNode (n : NodeId) : ManagerCall e (.cleanupNode n)
  | applyToDoc (socket : SocketId) (n : NodeId) (data : SyncMessage)
      (he : e = .yjsSync socket n data) : ManagerCall e (.applyToDoc n data.changes)
  | scheduleSave (n : NodeId) (userId : Option UserId) : ManagerCall e (.scheduleSave n userId)
  | manager (x : DocManager.Event) (he : e = .manager x) : ManagerCall e x
  | restart (he : e = .restart) : ManagerCall e .restart

private theorem managerCall_leaveEvents {x : DocManager.Event} {socket : SocketId}
    (h : x ∈ s.leaveEvents socket) : ManagerCall e x := by
  obtain ⟨n, -, rfl⟩ := List.mem_map.mp h
  exact .removeClient n socket

private theorem managerCall_loadEvents {x : DocManager.Event} {ws : WorkspaceId} {n : NodeId}
    {membership : Option Role} (h : x ∈ State.loadEvents ws n membership) : ManagerCall e x := by
  cases membership with
  | none => cases h
  | some role =>
      rw [List.mem_singleton.mp h]
      exact .getOrCreateDoc n ws

private theorem managerCall_resumeEvents {x : DocManager.Event} {h : HandlerId}
    (hx : x ∈ s.resumeEvents h) : ManagerCall e x := by
  unfold State.resumeEvents at hx
  split at hx
  · next socket ws role n get _ =>
      rcases List.mem_cons.mp hx with rfl | hx
      · exact .resumeGet get
      · split at hx
        · rw [List.mem_singleton.mp hx]
          exact .addClient n socket
        · cases hx
  · cases hx

/-- **The gateway calls nothing else**: only a sync message is applied to a
document, and only its own events resume what the manager has suspended. -/
theorem managerCall_of_mem {x : DocManager.Event} (h : x ∈ s.managerEvents e) :
    ManagerCall e x := by
  cases e with
  | disconnect socket =>
      simp only [State.managerEvents] at h
      split at h
      · cases h
      · exact managerCall_leaveEvents h
  | yjsJoin socket n =>
      simp only [State.managerEvents] at h
      split at h
      · split at h
        · cases h
        · exact managerCall_loadEvents h
      · cases h
  | yjsSync socket n data =>
      simp only [State.managerEvents, State.syncEvents] at h
      split at h
      · cases h
      · rcases List.mem_cons.mp h with rfl | h
        · exact .applyToDoc socket n data rfl
        · split at h
          · rw [List.mem_singleton.mp h]
            exact .scheduleSave n _
          · cases h
  | yjsLeave socket n =>
      rw [List.mem_singleton.mp h]
      exact .removeClient n socket
  | membershipReply i ok =>
      simp only [State.managerEvents] at h
      split at h
      · split at h
        · exact managerCall_loadEvents h
        · cases h
      · cases h
  | resumeYjsJoin i => exact managerCall_resumeEvents h
  | redisReply reply =>
      simp only [State.managerEvents] at h
      split at h
      · split at h
        · exact managerCall_leaveEvents h
        · cases h
      · cases h
  | broadcast event =>
      simp only [State.managerEvents] at h
      split at h
      · rw [List.mem_singleton.mp h]
        exact .cleanupNode event.nodeId
      · cases h
  | manager x =>
      rw [List.mem_singleton.mp h]
      exact .manager x rfl
  | restart =>
      rw [List.mem_singleton.mp h]
      exact .restart rfl
  | _ => cases h

/-! ### The manager after a step -/

private theorem exec_leaveEvents (m : DocManager.State) (nodeIds : List NodeId)
    (socket : SocketId) :
    exec (DocManager.step lex) m (nodeIds.map fun n => .removeClient n socket) =
      some (nodeIds.foldl (fun m n => m.removeClient n socket) m) := by
  induction nodeIds generalizing m with
  | nil => rfl
  | cons n nodeIds ih => exact ih (m.removeClient n socket)

private theorem manager_cleanupYjs (s : State) (socket : SocketId) :
    exec (DocManager.step lex) s.manager (s.leaveEvents socket) =
      some (s.cleanupYjs socket).manager := by
  unfold State.leaveEvents State.cleanupYjs
  cases s.yjsRooms socket with
  | none => rfl
  | some nodeIds => exact exec_leaveEvents s.manager nodeIds socket

private theorem manager_loadYjsDoc (s : State) (socket : SocketId) (workspaceId : WorkspaceId)
    (nodeId : NodeId) (membership : Option Role) :
    exec (DocManager.step lex) s.manager (State.loadEvents workspaceId nodeId membership) =
      some (s.loadYjsDoc socket workspaceId nodeId membership).1.manager := by
  cases membership <;> rfl

/-- Applying a message to the managed document is applying what it carries. -/
private theorem manager_handleYjsSync (s : State) (socket : SocketId) (nodeId : NodeId)
    (data : SyncMessage) :
    exec (DocManager.step lex) s.manager (s.syncEvents socket nodeId data) =
      some (s.handleYjsSync socket nodeId data).1.manager := by
  unfold State.syncEvents State.handleYjsSync
  cases hr : s.manager.mem.docs nodeId with
  | none => rfl
  | some r =>
      have happly : s.manager.mem.applyToDoc nodeId data.changes =
          s.manager.mem.modify r fun d =>
            { d with doc := (readSyncMessage (s.manager.mem.heap r).doc data).doc } := by
        rw [DocManager.Memory.applyToDoc, hr, readSyncMessage_doc]
        rfl
      rw [if_neg (by simp), exec_cons]
      simp only [DocManager.step, Option.bind_some, happly, readSyncMessage_messageType]
      by_cases htype : data.messageType = 2
      · by_cases hread : (s.data socket).yjsReadOnly nodeId = some true
        · simp [htype, hread, State.setMem]
        · simp [htype, hread, State.setMem, exec_cons, DocManager.step]
      · simp [htype, State.setMem]

private theorem manager_resumeYjsJoin {h : HandlerId} {out : List Output}
    (hs' : s.resumeYjsJoin h = some (s', out)) :
    exec (DocManager.step lex) s.manager (s.resumeEvents h) = some s'.manager := by
  unfold State.resumeYjsJoin at hs'
  split at hs'
  · next socket ws role nodeId get hhandler =>
      simp only [State.resumeEvents, hhandler]
      split at hs'
      · cases hs'
      · next c hget =>
          cases hawaited : s.manager.awaited c.await with
          | none => simp [hawaited] at hs'
          | some value =>
              have hresume : DocManager.step lex s.manager (.resumeGet get) =
                  some ((s.manager.finishAwait c.nodeId c.await).removeGet get) := by
                simp [DocManager.step, hget, hawaited]
              rw [exec_cons, hresume]
              cases value with
              | error failure =>
                  simp only [hawaited, Option.some.injEq, Prod.mk.injEq] at hs'
                  simp [hget, hawaited, ← hs'.1, State.finish]
              | ok r =>
                  simp only [hawaited, Option.some.injEq] at hs'
                  have hmanager := congrArg (fun p : State × List Output => p.1.manager) hs'
                  simp only [hget, hawaited, Option.bind_some]
                  exact congrArg some hmanager
  · cases hs'

private theorem manager_membershipReply {h : HandlerId} {ok : Bool} {out : List Output}
    (hs' : s.membershipReply h ok = some (s', out)) :
    exec (DocManager.step lex) s.manager (s.managerEvents (.membershipReply h ok)) =
      some s'.manager := by
  unfold State.membershipReply at hs'
  unfold State.managerEvents
  split at hs'
  · next socket ws member hhandler =>
      simp only [hhandler]
      cases ok with
      | false =>
          cases hs'
          rfl
      | true =>
          simp only [if_true, Option.some.injEq] at hs'
          unfold State.continueJoin at hs'
          split at hs' <;> cases hs' <;> rfl
  · next socket userId ws nodeId hhandler =>
      simp only [hhandler]
      cases ok with
      | false =>
          cases hs'
          rfl
      | true =>
          simp only [if_true, Option.some.injEq] at hs' ⊢
          rw [← show _ = s'.manager from
            congrArg (fun p : State × List Output => p.1.manager) hs']
          exact manager_loadYjsDoc (State.setData (State.finish { s with
            passed := s.passed ++ (s.memberships userId ws).toList.map fun role =>
              (userId, ws, role) } h) socket fun d => { d with
            membershipCache := Function.update d.membershipCache ws
              (some (s.memberships userId ws)) }) socket ws nodeId _
  · cases hs'

private theorem manager_redisReply {reply : DocManager.Reply} {out : List Output}
    (hs' : s.redisReply reply = some (s', out)) :
    exec (DocManager.step lex) s.manager (s.managerEvents (.redisReply reply)) =
      some s'.manager := by
  unfold State.redisReply at hs'
  unfold State.managerEvents
  split at hs'
  · cases hs'
  · next h rest hcommands =>
      simp only [hcommands, List.head?_cons, Option.bind_some]
      dsimp only at hs'
      split at hs'
      · next hhandler =>
          cases hs'
          simp [hhandler]
      · next socket pending hhandler =>
          simp only [hhandler]
          cases pending with
          | leaveListPresence ws =>
              cases reply with
              | ok =>
                  cases hs'
                  exact manager_cleanupYjs (({ s with commands := rest } : State).finish h) socket
              | _ =>
                  cases hs'
                  rfl
          | _ => cases reply <;> cases hs' <;> rfl

/-- **Every step of the gateway is a run of the manager.** -/
theorem exec_manager (h : step lex verify s e = some s') :
    exec (DocManager.step lex) s.manager (s.managerEvents e) = some s'.manager := by
  obtain ⟨out, h⟩ : ∃ out, handle lex verify s e = some (s', out) := ⟨_, step_eq_some.mp h⟩
  cases e with
  | connect token =>
      cases h
      unfold State.handleConnection
      split <;> rfl
  | disconnect socket =>
      rw [handle] at h
      split at h
      · cases h
        unfold State.handleDisconnect
        simp only [State.managerEvents]
        -- the rooms are left before the nodes are
        have hcleanup : exec (DocManager.step lex) s.manager (s.leaveEvents socket) = _ :=
          manager_cleanupYjs { s with
            connected := s.connected.erase socket
            rooms := fun room => (s.rooms room).erase socket } socket
        cases hws : (s.data socket).workspaceId with
        | none => exact hcleanup
        | some workspaceId =>
            cases huser : (s.data socket).userId with
            | none => exact hcleanup
            | some userId => rfl
      · cases h
  | joinWorkspace socket workspaceId userName color profile =>
      rw [handle] at h
      split at h
      · unfold State.handleJoin at h
        split at h <;> cases h <;> rfl
      · cases h
  | yjsJoin socket nodeId =>
      rw [handle] at h
      split at h
      · have hs' := Option.some.inj h
        unfold State.handleYjsJoin at hs'
        simp only [State.managerEvents]
        cases huser : (s.data socket).userId with
        | none =>
            simp only [huser] at hs'
            cases hs'
            rfl
        | some userId =>
            cases hws : (s.data socket).workspaceId with
            | none =>
                simp only [huser, hws] at hs'
                cases hs'
                rfl
            | some workspaceId =>
                simp only [huser, hws] at hs' ⊢
                cases hcache : (s.data socket).membershipCache workspaceId with
                | none =>
                    simp only [hcache] at hs' ⊢
                    cases hs'
                    rfl
                | some membership =>
                    simp only [hcache] at hs' ⊢
                    rw [manager_loadYjsDoc s socket, hs']
      · cases h
  | yjsSync socket nodeId data =>
      rw [handle] at h
      split at h
      · have hs' := Option.some.inj h
        rw [State.managerEvents, manager_handleYjsSync, hs']
      · cases h
  | membershipReply h' ok => exact manager_membershipReply h
  | resumeYjsJoin h' => exact manager_resumeYjsJoin h
  | redisReply reply => exact manager_redisReply h
  | broadcast event =>
      cases h
      simp only [State.managerEvents]
      split <;> rfl
  | announce t =>
      rw [handle, State.announce] at h
      split at h
      · cases h
      · split at h
        · cases h
        · split at h
          · cases h
            rfl
          · cases h
  | manager e =>
      rw [handle] at h
      split at h
      · obtain ⟨m, hm, heq⟩ := Option.map_eq_some_iff.mp h
        cases heq
        rw [State.managerEvents, exec_cons, hm]
        rfl
      · cases h
  | wsAwareness socket workspaceId data =>
      rw [handle] at h
      split at h
      · cases h
        unfold State.handleWsAwareness
        split <;> rfl
      · cases h
  | yjsLeave socket nodeId =>
      rw [handle] at h
      split at h
      · cases h
        unfold State.handleYjsLeave
        dsimp only
        split <;> rfl
      · cases h
  | nodePositionLive socket payload =>
      rw [handle] at h
      split at h <;> cases h
      rfl
  | yjsAwareness socket nodeId data =>
      rw [handle] at h
      split at h <;> cases h
      rfl
  | _ =>
      cases h
      rfl

/-- The manager of a reachable gateway is a reachable manager. -/
theorem manager_reachable {nodes : NodeId → Option DocManager.NodeRow}
    {memberships : UserId → WorkspaceId → Option Role}
    (h : Reachable (step lex verify) (State.init nodes memberships) s) :
    Reachable (DocManager.step lex) (DocManager.State.init nodes) s.manager := by
  refine h.invariant (I := fun s => Reachable (DocManager.step lex) (.init nodes) s.manager)
    (.refl ..) ?_
  rintro s e s' hstep ⟨es, hes⟩
  exact ⟨es ++ s.managerEvents e, by rw [exec_append, hes, Option.bind_some, exec_manager hstep]⟩

end AideepWebsocket.Gateway
