import AideepWebsocket.Gateway.Sessions

/-!
# Do relays stay inside their room?

Four messages of a client are passed on to a room that the message itself names.
`yjs:ws:awareness` is passed on only if the socket is in the workspace;
`node_position_live`, `yjs:awareness` and `yjs:sync` are not checked, and the last of
them also merges its changes into the document of the node.

`HasJoined` is a matter of the whole run: the socket was in the room at some time.
`JoinedInv` connects it to what the handlers look at (`client.data.workspaceId`, the
flag of a node), also for a `yjs:ws:awareness` that is suspended, whose socket may have
gone by the time it is passed on.

* `RelaysInside` — what is passed on, or merged, comes from a socket that had joined;
* `KeepsToRooms` — the clients keep to the rooms they have joined, or nobody notices;
* `relaysInside_iff` — the one holds of a run if and only if the other does, and then
  the members of a room receive the same if the messages of others are left out.
-/

namespace AideepWebsocket.Gateway

open Library

variable {lex : Lexical} {verify : String → Option UserId} {s s' : State} {e : Event}

/-! ### Rooms and messages -/

/-- The socket that sends a message that is passed on, and the room it names. -/
def Event.relay : Event → Option (SocketId × Room)
  | .nodePositionLive socket payload => some (socket, .workspace payload.workspaceId)
  | .yjsSync socket nodeId _ => some (socket, .yjsRoom nodeId)
  | .yjsAwareness socket nodeId _ => some (socket, .yjsRoom nodeId)
  | .wsAwareness socket workspaceId _ => some (socket, .yjsWsRoom workspaceId)
  | _ => none

/-- The workspace awareness that a handler passes on when Redis answers. -/
def Handler.relay (x : Handler) : Option (SocketId × Room) :=
  match x.pending with
  | .cacheAwareness workspaceId _ => some (x.socket, .yjsWsRoom workspaceId)
  | _ => none

/-- The socket on whose behalf a step passes something on, and the room. -/
def State.relay (s : State) : Event → Option (SocketId × Room)
  | .redisReply _ => (s.commands.head?.bind s.handlers).bind Handler.relay
  | e => e.relay

/-- The socket was in the room at some time of the run. -/
abbrev HasJoined (lex : Lexical) (verify : String → Option UserId) (s₀ : State)
    (es : List Event) (socket : SocketId) (room : Room) : Prop :=
  Visits (step lex verify) (fun s => socket ∈ s.rooms room) s₀ es

/-- The step sends something to a socket other than `socket`. -/
def ReachesOthers (lex : Lexical) (verify : String → Option UserId) (s : State) (e : Event)
    (socket : SocketId) : Prop :=
  ∃ recipients event, .emit recipients event ∈ outputs lex verify s e ∧
    ∃ k ∈ recipients, k ≠ socket

/-- **Relays stay inside.**  What a step passes on, and what it merges into a document,
comes from a socket that has joined the room. -/
def RelaysInside (lex : Lexical) (verify : String → Option UserId) (s₀ : State)
    (es : List Event) : Prop :=
  ∀ pre e rest s s', es = pre ++ e :: rest → exec (step lex verify) s₀ pre = some s →
    step lex verify s e = some s' → ∀ socket room, s.relay e = some (socket, room) →
      ReachesOthers lex verify s e socket ∨ s'.manager ≠ s.manager →
        HasJoined lex verify s₀ pre socket room

/-- The message is for a room that the socket has joined, or nobody notices: nobody else
is in the room; the document of the node is not in memory, or the message is no update
and adds nothing. -/
def Addressed (lex : Lexical) (verify : String → Option UserId) (s₀ : State) (pre : List Event)
    (s : State) : Event → Prop
  | .nodePositionLive socket payload =>
      HasJoined lex verify s₀ pre socket (.workspace payload.workspaceId) ∨
        (s.inRoom (.workspace payload.workspaceId)).erase socket = ∅
  | .yjsAwareness socket nodeId _ =>
      HasJoined lex verify s₀ pre socket (.yjsRoom nodeId) ∨
        (s.inRoom (.yjsRoom nodeId)).erase socket = ∅
  | .yjsSync socket nodeId data =>
      HasJoined lex verify s₀ pre socket (.yjsRoom nodeId) ∨
        ∀ r ∈ s.manager.mem.docs nodeId,
          data.messageType ≠ 2 ∧ data.changes ≤ (s.manager.mem.heap r).doc
  | _ => True

/-- The clients keep to the rooms they have joined. -/
def KeepsToRooms (lex : Lexical) (verify : String → Option UserId) (s₀ : State)
    (es : List Event) : Prop :=
  ∀ pre e rest s s', es = pre ++ e :: rest → exec (step lex verify) s₀ pre = some s →
    step lex verify s e = some s' → Addressed lex verify s₀ pre s e

/-- What the members of the room receive in a step. -/
def delivered (lex : Lexical) (verify : String → Option UserId) (room : Room)
    (x : State × Event) : List (Finset SocketId × ServerEvent) :=
  (outputs lex verify x.1 x.2).filterMap fun
    | .emit recipients event =>
        if recipients ∩ x.1.rooms room = ∅ then none
        else some (recipients ∩ x.1.rooms room, event)
    | .ack _ _ => none

/-- What the members of the room receive in a run. -/
def traffic (lex : Lexical) (verify : String → Option UserId) (s₀ : State) (es : List Event)
    (room : Room) : List (Finset SocketId × ServerEvent) :=
  (path (step lex verify) s₀ es).flatMap (delivered lex verify room)

/-- `p` selects messages for the room from sockets that had not joined it. -/
def Outside (lex : Lexical) (verify : String → Option UserId) (s₀ : State) (es : List Event)
    (room : Room) (p : State × Event → Bool) : Prop :=
  ∀ pre e rest s, es = pre ++ e :: rest → exec (step lex verify) s₀ pre = some s →
    p (s, e) = true → ∃ socket, e.relay = some (socket, room) ∧
      ¬ HasJoined lex verify s₀ pre socket room

/-! ### What the handlers know -/

/-- What a step tells the handlers about the rooms of a socket. -/
structure JoinStep (s s' : State) : Prop where
  workspace : ∀ k ws, (s'.data k).workspaceId = some ws →
    (s.data k).workspaceId = some ws ∨ k ∈ s'.rooms (.yjsWsRoom ws)
  node : ∀ k n, (s'.data k).yjsReadOnly n ≠ none →
    (s.data k).yjsReadOnly n ≠ none ∨ k ∈ s'.rooms (.yjsRoom n)
  awareness : ∀ h k ws data, s'.handlers h = some ⟨k, .cacheAwareness ws data⟩ →
    s.handlers h = some ⟨k, .cacheAwareness ws data⟩ ∨ (s.data k).workspaceId = some ws

namespace JoinStep

/-- No record changes, and no awareness is suspended. -/
private theorem of_data (hdata : s'.data = s.data)
    (hhandlers : ∀ h k ws data, s'.handlers h = some ⟨k, .cacheAwareness ws data⟩ →
      s.handlers h = some ⟨k, .cacheAwareness ws data⟩) : JoinStep s s' where
  workspace _ _ h := Or.inl (hdata ▸ h)
  node _ _ h := Or.inl (hdata ▸ h)
  awareness h k ws data hx := Or.inl (hhandlers h k ws data hx)

private theorem of_same (hdata : s'.data = s.data) (hhandlers : s'.handlers = s.handlers) :
    JoinStep s s' :=
  of_data hdata fun _ _ _ _ hx => hhandlers ▸ hx

/-- The handler goes on to an await of another kind, or ends. -/
private theorem of_update {h : HandlerId} {y : Option Handler}
    (hy : ∀ k ws data, y ≠ some ⟨k, .cacheAwareness ws data⟩) (hdata : s'.data = s.data)
    (hhandlers : s'.handlers = Function.update s.handlers h y) : JoinStep s s' := by
  refine of_data hdata fun i k ws data hx => ?_
  rw [hhandlers] at hx
  by_cases hi : i = h
  · rw [hi, Function.update_self] at hx
    exact absurd hx (hy k ws data)
  · rwa [Function.update_of_ne hi] at hx

end JoinStep

private theorem mem_rooms_join (s : State) (socket : SocketId) (room : Room) :
    socket ∈ (s.join socket room).rooms room := by
  have hself : (s.join socket room).rooms room = insert socket (s.rooms room) :=
    Function.update_self ..
  rw [hself]
  exact Finset.mem_insert_self socket _

/-- `client.data` of one socket changes. -/
private theorem JoinStep.of_setData {socket : SocketId} {d : ClientData}
    (hdata : s'.data = Function.update s.data socket d)
    (hws : ∀ ws, d.workspaceId = some ws →
      (s.data socket).workspaceId = some ws ∨ socket ∈ s'.rooms (.yjsWsRoom ws))
    (hnode : ∀ n, d.yjsReadOnly n ≠ none →
      (s.data socket).yjsReadOnly n ≠ none ∨ socket ∈ s'.rooms (.yjsRoom n))
    (hhandlers : ∀ h k ws data, s'.handlers h = some ⟨k, .cacheAwareness ws data⟩ →
      s.handlers h = some ⟨k, .cacheAwareness ws data⟩) : JoinStep s s' where
  workspace k ws h := by
    rw [hdata] at h
    by_cases hk : k = socket
    · subst hk
      rw [Function.update_self] at h
      exact hws ws h
    · rw [Function.update_of_ne hk] at h
      exact Or.inl h
  node k n h := by
    rw [hdata] at h
    by_cases hk : k = socket
    · subst hk
      rw [Function.update_self] at h
      exact hnode n h
    · rw [Function.update_of_ne hk] at h
      exact Or.inl h
  awareness h k ws data hx := Or.inl (hhandlers h k ws data hx)

private theorem awareness_of_update {h i : HandlerId} {y : Option Handler} {k : SocketId}
    {ws : WorkspaceId} {data : Bytes} (hy : ∀ k ws data, y ≠ some ⟨k, .cacheAwareness ws data⟩)
    (hx : Function.update s.handlers h y i = some ⟨k, .cacheAwareness ws data⟩) :
    s.handlers i = some ⟨k, .cacheAwareness ws data⟩ := by
  by_cases hi : i = h
  · rw [hi, Function.update_self] at hx
    exact absurd hx (hy k ws data)
  · rwa [Function.update_of_ne hi] at hx

private theorem joinStep_membershipReply {h : HandlerId} {ok : Bool} {out : List Output}
    (hs' : s.membershipReply h ok = some (s', out)) : JoinStep s s' := by
  rcases s.membershipReply_cases hs' with
    ⟨socket, ws, member, hhandler, ⟨-, rfl, -⟩ | ⟨role, -, -, -, rfl⟩⟩ |
    ⟨socket, userId, ws, n, hhandler, hcase⟩
  · exact .of_update (y := none) (by simp) rfl rfl
  · refine .of_setData rfl (fun ws' hws => Or.inr ?_) (fun n hn => Or.inl hn)
      fun i k ws' data hx => awareness_of_update
        (y := some ⟨socket, .joinGetCachedAwareness ws member⟩) (by simp) hx
    obtain rfl := Option.some.inj hws
    exact mem_rooms_join _ socket _
  · have hfinish : ∀ {i : HandlerId} {k : SocketId} {ws' : WorkspaceId} {data : Bytes},
        (s.finish h).handlers i = some ⟨k, .cacheAwareness ws' data⟩ →
          s.handlers i = some ⟨k, .cacheAwareness ws' data⟩ :=
      fun hx => awareness_of_update (y := none) (by simp) hx
    rcases hcase with ⟨-, rfl, -⟩ | ⟨-, -, rfl, -⟩ | ⟨role, -, -, -, rfl⟩
    · exact .of_update (y := none) (by simp) rfl rfl
    · exact .of_setData rfl (fun _ hws => Or.inl hws) (fun _ hn => Or.inl hn)
        fun _ _ _ _ hx => hfinish hx
    · refine .of_setData rfl (fun _ hws => Or.inl hws) (fun _ hn => Or.inl hn)
        fun i k ws' data hx => hfinish ?_
      exact awareness_of_update (s := s.finish h) (by simp) hx

private theorem joinStep_redisReply {reply : DocManager.Reply} {out : List Output}
    (hs' : s.redisReply reply = some (s', out)) : JoinStep s s' := by
  obtain ⟨h, rest, -, ⟨rfl, -⟩ | ⟨socket, pending, -, -, hcase⟩⟩ := s.redisReply_cases hs'
  · exact .of_same rfl rfl
  · rcases hcase with ⟨next, hnext, rfl⟩ | ⟨-, -, rfl, _, _, hclean⟩ | ⟨-, rfl⟩
    · -- no handler comes to the awareness from another command
      have hne : ∀ ws data, next ≠ .cacheAwareness ws data := by
        rintro ws data rfl
        cases pending <;> cases hnext
      exact .of_update (y := some ⟨socket, next⟩) (by simp [hne]) rfl rfl
    · rw [hclean]
      exact .of_update (y := none) (by simp) rfl rfl
    · exact .of_update (y := none) (by simp) rfl rfl

private theorem joinStep_resumeYjsJoin {h : HandlerId} {out : List Output}
    (hs' : s.resumeYjsJoin h = some (s', out)) : JoinStep s s' := by
  obtain ⟨socket, ws, role, n, get, c, -, -, ⟨failure, -, rfl, -⟩ | ⟨r, -, heq⟩⟩ :=
    s.resumeYjsJoin_cases hs'
  · exact .of_update (y := none) (by simp) rfl rfl
  · cases heq
    refine .of_setData rfl (fun _ hws => Or.inl hws) (fun m hm => ?_)
      fun i k ws' data hx => awareness_of_update (y := none) (by simp) hx
    by_cases hmn : m = n
    · subst hmn
      exact Or.inr (mem_rooms_join _ socket (.yjsRoom m))
    · exact Or.inl fun hnone => hm ((Function.update_of_ne hmn ..).trans hnone)

/-- **One step.** -/
private theorem joinStep_of_step (hstep : step lex verify s e = some s') : JoinStep s s' := by
  obtain ⟨out, h⟩ : ∃ out, handle lex verify s e = some (s', out) := ⟨_, step_eq_some.mp hstep⟩
  cases e with
  | connect token =>
      cases h
      unfold State.handleConnection
      split
      · exact .of_same rfl rfl
      · exact .of_setData rfl (fun _ hws => Or.inl hws) (fun _ hn => Or.inl hn)
          fun _ _ _ _ hx => hx
  | disconnect socket =>
      rw [handle] at h
      split at h
      · cases h
        rcases s.handleDisconnect_cases socket with
          ⟨ws, userId, -, -, heq⟩ | ⟨-, heq, _, _, hclean⟩
        · rw [heq]
          exact .of_update (y := some ⟨socket, .leaveRemovePresence ws userId⟩) (by simp) rfl rfl
        · rw [heq, hclean]
          exact .of_same rfl rfl
      · cases h
  | yjsJoin socket n =>
      rw [handle] at h
      split at h
      · have hs' := congrArg Prod.fst (Option.some.inj h)
        rw [← show _ = s' from hs']
        rcases s.handleYjsJoin_cases socket n with
          ⟨text, heq⟩ | ⟨userId, ws, -, -, ⟨-, heq⟩ | ⟨role, -, heq⟩⟩
        · rw [heq]
          exact .of_same rfl rfl
        · rw [heq]
          exact .of_update (y := some ⟨socket, .yjsCheckWorkspace userId ws n⟩) (by simp) rfl rfl
        · rw [heq]
          exact .of_update (y := some ⟨socket, .yjsGetOrCreateDoc ws role n
            (s.manager.getOrCreateDoc n ws).1.loader.nextGet⟩) (by simp) rfl rfl
      · cases h
  | membershipReply h' ok => exact joinStep_membershipReply h
  | resumeYjsJoin h' => exact joinStep_resumeYjsJoin h
  | redisReply reply => exact joinStep_redisReply h
  | joinWorkspace socket ws userName color profile =>
      rw [handle] at h
      split at h
      · unfold State.handleJoin at h
        split at h
        · cases h
          exact .of_same rfl rfl
        · next userId _ =>
            cases h
            exact .of_update (y := some ⟨socket, .joinCheckWorkspace ws
              ⟨userId, userName, color, profile⟩⟩) (by simp) rfl rfl
      · cases h
  | wsAwareness socket ws data =>
      rw [handle] at h
      split at h
      · cases h
        unfold State.handleWsAwareness
        split
        · next hws =>
            refine ⟨fun _ _ h => Or.inl h, fun _ _ h => Or.inl h, fun i k ws' data' hx => ?_⟩
            change Function.update s.handlers s.nextHandler _ i = _ at hx
            by_cases hi : i = s.nextHandler
            · rw [hi, Function.update_self] at hx
              cases hx
              exact Or.inr hws
            · rw [Function.update_of_ne hi] at hx
              exact Or.inl hx
        · exact .of_same rfl rfl
      · cases h
  | yjsLeave socket n =>
      rw [handle] at h
      split at h
      · cases h
        unfold State.handleYjsLeave
        dsimp only
        split <;> exact .of_same rfl rfl
      · cases h
  | restart =>
      cases h
      exact .of_data rfl fun _ _ _ _ hx => by cases hx
  | presenceExpire ws =>
      cases h
      exact .of_same rfl rfl
  | _ =>
      have hsame := sameSessions_of_relayed hstep trivial
      exact .of_same hsame.data hsame.handlers

/-- What `client.data` and a suspended `yjs:ws:awareness` say of a socket is that it has
joined. -/
structure JoinedInv (lex : Lexical) (verify : String → Option UserId) (s₀ : State)
    (es : List Event) (s : State) : Prop where
  workspace : ∀ k ws, (s.data k).workspaceId = some ws →
    HasJoined lex verify s₀ es k (.yjsWsRoom ws)
  node : ∀ k n, (s.data k).yjsReadOnly n ≠ none → HasJoined lex verify s₀ es k (.yjsRoom n)
  awareness : ∀ h k ws data, s.handlers h = some ⟨k, .cacheAwareness ws data⟩ →
    HasJoined lex verify s₀ es k (.yjsWsRoom ws)

theorem joinedInv_of_exec {nodes : NodeId → Option DocManager.NodeRow}
    {memberships : UserId → WorkspaceId → Option Role} {es : List Event}
    (hes : exec (step lex verify) (State.init nodes memberships) es = some s) :
    JoinedInv lex verify (State.init nodes memberships) es s := by
  refine history_invariant ?_ (fun es s e s' hes hJ hstep => ?_) hes
  · refine ⟨fun k ws h => ?_, fun k n h => absurd rfl h, fun h k ws data hx => ?_⟩
    · cases h
    · cases hx
  · have hes' : exec (step lex verify) (State.init nodes memberships) (es ++ [e]) = some s' := by
      rw [exec_concat, hes, Option.bind_some, hstep]
    obtain ⟨hws, hnode, hawareness⟩ := joinStep_of_step hstep
    refine ⟨fun k ws h => ?_, fun k n h => ?_, fun h k ws data hx => ?_⟩
    · rcases hws k ws h with hold | hmem
      · exact (hJ.workspace k ws hold).append
      · exact Visits.of_exec hes' hmem
    · rcases hnode k n h with hold | hmem
      · exact (hJ.node k n hold).append
      · exact Visits.of_exec hes' hmem
    · rcases hawareness h k ws data hx with hold | hold
      · exact (hJ.awareness h k ws data hold).append
      · exact (hJ.workspace k ws hold).append

/-! ### Messages -/

variable {s₀ : State} {pre : List Event}

/-- A message that is sent to the others in a room. -/
private theorem reachesOthers_iff {socket : SocketId} {room : Room} {event : ServerEvent}
    (hout : outputs lex verify s e = [s.emitToOthers socket room event]) :
    ReachesOthers lex verify s e socket ↔ (s.inRoom room).erase socket ≠ ∅ := by
  unfold ReachesOthers
  rw [hout]
  constructor
  · rintro ⟨recipients, event', hmem, k, hk, -⟩
    obtain ⟨rfl, -⟩ := Output.emit.inj (List.mem_singleton.mp hmem)
    exact Finset.ne_empty_of_mem hk
  · intro hne
    obtain ⟨k, hk⟩ := Finset.nonempty_iff_ne_empty.mpr hne
    exact ⟨_, _, List.mem_singleton_self _, k, hk, Finset.ne_of_mem_erase hk⟩

/-- A message that is only passed on. -/
private theorem inside_iff_of_emit {socket : SocketId} {room : Room} {event : ServerEvent}
    (hs' : s' = s) (hout : outputs lex verify s e = [s.emitToOthers socket room event]) :
    (ReachesOthers lex verify s e socket ∨ s'.manager ≠ s.manager →
        HasJoined lex verify s₀ pre socket room) ↔
      HasJoined lex verify s₀ pre socket room ∨ (s.inRoom room).erase socket = ∅ := by
  rw [reachesOthers_iff hout, hs']
  by_cases hempty : (s.inRoom room).erase socket = ∅ <;> simp [hempty]

/-- Scheduling a save arms a timer. -/
private theorem nextTimer_scheduleSave {m : DocManager.Memory} {n : NodeId}
    {r : DocManager.DocRef} (hdocs : m.docs n = some r) (userId : Option UserId) :
    (m.scheduleSave n userId).nextTimer = m.nextTimer + 1 := by
  rw [DocManager.Memory.scheduleSave, hdocs]
  change (m.clearTimeout (m.heap r).saveTimer).nextTimer + 1 = m.nextTimer + 1
  cases (m.heap r).saveTimer <;> rfl

/-- A sync message that is no update and adds nothing is only answered. -/
private theorem sync_of_settled (socket : SocketId) {n : NodeId} {data : SyncMessage}
    {r : DocManager.DocRef} (hdocs : s.manager.mem.docs n = some r) (htype : data.messageType ≠ 2)
    (hle : data.changes ≤ (s.manager.mem.heap r).doc) :
    (s.handleYjsSync socket n data).1 = s ∧
      ∀ out ∈ (s.handleYjsSync socket n data).2, ∃ reply, out = s.emit socket (.yjsSync n reply) := by
  have hdoc : (readSyncMessage (s.manager.mem.heap r).doc data).doc = (s.manager.mem.heap r).doc := by
    rw [readSyncMessage_doc]
    exact sup_eq_left.mpr hle
  have hmem : s.manager.mem.modify r (fun d => { d with
      doc := (readSyncMessage (s.manager.mem.heap r).doc data).doc }) = s.manager.mem := by
    rw [hdoc, DocManager.Memory.modify]
    exact congrArg (fun heap => { s.manager.mem with heap := heap })
      (Function.update_eq_self r s.manager.mem.heap)
  unfold State.handleYjsSync
  rw [hdocs]
  dsimp only
  rw [readSyncMessage_messageType, if_neg htype, hmem]
  refine ⟨rfl, fun out hout => ?_⟩
  obtain ⟨reply, -, rfl⟩ := List.mem_map.mp hout
  exact ⟨reply, rfl⟩

/-- Any other one changes what is in memory, unless the socket may only read. -/
private theorem sync_of_unsettled {socket : SocketId} {n : NodeId} {data : SyncMessage}
    {r : DocManager.DocRef} (hdocs : s.manager.mem.docs n = some r)
    (hread : (s.data socket).yjsReadOnly n = none)
    (h : ¬ (data.messageType ≠ 2 ∧ data.changes ≤ (s.manager.mem.heap r).doc)) :
    (s.handleYjsSync socket n data).1.manager ≠ s.manager := by
  unfold State.handleYjsSync
  rw [hdocs]
  dsimp only
  rw [readSyncMessage_messageType]
  split
  · rw [hread, if_neg (by simp)]
    intro heq
    have htimer := congrArg (fun m : DocManager.State => m.mem.nextTimer) heq
    have hnext := nextTimer_scheduleSave (n := n) (r := r)
      (m := s.manager.mem.modify r fun d => { d with
        doc := (readSyncMessage (s.manager.mem.heap r).doc data).doc }) hdocs
      (s.data socket).userId
    exact absurd (hnext.symm.trans htimer) (Nat.succ_ne_self _)
  · next htype =>
      intro heq
      have hdoc : (readSyncMessage (s.manager.mem.heap r).doc data).doc =
          (s.manager.mem.heap r).doc := by
        have hheap := congrArg (fun m : DocManager.State => (m.mem.heap r).doc) heq
        dsimp only [State.setMem, DocManager.Memory.modify] at hheap
        rwa [Function.update_self] at hheap
      rw [readSyncMessage_doc] at hdoc
      exact h ⟨htype, sup_eq_left.mp hdoc⟩

/-- A message for the document of a node. -/
private theorem inside_iff_of_sync {socket : SocketId} {n : NodeId} {data : SyncMessage}
    (hJ : JoinedInv lex verify s₀ pre s)
    (hstep : step lex verify s (.yjsSync socket n data) = some s') :
    (ReachesOthers lex verify s (.yjsSync socket n data) socket ∨ s'.manager ≠ s.manager →
        HasJoined lex verify s₀ pre socket (.yjsRoom n)) ↔
      Addressed lex verify s₀ pre s (.yjsSync socket n data) := by
  have hhandle := handleYjsSync_of_step hstep
  have hs' : s' = (s.handleYjsSync socket n data).1 := (congrArg Prod.fst hhandle).symm
  have hout : outputs lex verify s (.yjsSync socket n data) = (s.handleYjsSync socket n data).2 :=
    (congrArg Prod.snd hhandle).symm
  by_cases hjoined : HasJoined lex verify s₀ pre socket (.yjsRoom n)
  · exact iff_of_true (fun _ => hjoined) (Or.inl hjoined)
  · refine ⟨fun hinside => Or.inr fun r hdocs => ?_, fun haddressed hreaches => ?_⟩
    · by_contra hnot
      have hread : (s.data socket).yjsReadOnly n = none := by
        by_contra hread
        exact hjoined (hJ.node socket n hread)
      exact hjoined (hinside (Or.inr (hs' ▸ sync_of_unsettled hdocs hread hnot)))
    · refine absurd hreaches ?_
      rw [ReachesOthers, hout, hs']
      cases hdocs : s.manager.mem.docs n with
      | none =>
          rw [State.handleYjsSync, hdocs]
          simp
      | some r =>
          obtain ⟨htype, hle⟩ := haddressed.resolve_left hjoined r hdocs
          obtain ⟨hsame, hanswers⟩ := sync_of_settled socket hdocs htype hle
          rintro (⟨recipients, event, hmem, k, hk, hne⟩ | hmanager)
          · obtain ⟨reply, heq⟩ := hanswers _ hmem
            obtain ⟨rfl, -⟩ := Output.emit.inj heq
            exact hne (Finset.mem_singleton.mp (Finset.mem_of_mem_inter_left hk))
          · exact hmanager (congrArg State.manager hsame)

/-- `yjs:ws:awareness` itself passes nothing on, and is dropped outside the workspace. -/
private theorem wsAwareness_of_step {socket : SocketId} {ws : WorkspaceId} {data : Bytes}
    (hstep : step lex verify s (.wsAwareness socket ws data) = some s') :
    outputs lex verify s (.wsAwareness socket ws data) = [] ∧ s'.manager = s.manager ∧
      ((s.data socket).workspaceId ≠ some ws → s' = s) := by
  rw [step_eq_some, handle] at hstep
  split at hstep
  · obtain ⟨hs', hout⟩ := Prod.mk.inj (Option.some.inj hstep)
    rw [← hs', ← hout]
    unfold State.handleWsAwareness
    split
    · next hws => exact ⟨rfl, rfl, fun hne => absurd hws hne⟩
    · exact ⟨rfl, rfl, fun _ => rfl⟩
  · cases hstep

/-- The socket of a suspended awareness has joined. -/
private theorem joined_of_redisReply {reply : DocManager.Reply} {socket : SocketId} {room : Room}
    (hJ : JoinedInv lex verify s₀ pre s)
    (hrelay : s.relay (.redisReply reply) = some (socket, room)) :
    HasJoined lex verify s₀ pre socket room := by
  obtain ⟨x, hx, hrelay⟩ := Option.bind_eq_some_iff.mp hrelay
  obtain ⟨h, -, hhandler⟩ := Option.bind_eq_some_iff.mp hx
  obtain ⟨k, pending⟩ := x
  cases pending with
  | cacheAwareness ws data =>
      cases hrelay
      exact hJ.awareness h k ws data hhandler
  | _ => cases hrelay

private theorem emitted_of_step {socket : SocketId} {room : Room} {event : ServerEvent}
    (hhandle : handle lex verify s e =
      if socket ∈ s.connected then some (s, [s.emitToOthers socket room event]) else none)
    (hstep : step lex verify s e = some s') :
    s' = s ∧ outputs lex verify s e = [s.emitToOthers socket room event] := by
  rw [step_eq_some, hhandle] at hstep
  split at hstep
  · obtain ⟨hs', hout⟩ := Prod.mk.inj (Option.some.inj hstep)
    exact ⟨hs'.symm, hout.symm⟩
  · cases hstep

/-- **One step of a run.**  What the step passes on comes from a socket that has joined
if and only if the message is addressed so. -/
private theorem inside_iff_addressed (hJ : JoinedInv lex verify s₀ pre s)
    (hstep : step lex verify s e = some s') :
    (∀ socket room, s.relay e = some (socket, room) →
        ReachesOthers lex verify s e socket ∨ s'.manager ≠ s.manager →
          HasJoined lex verify s₀ pre socket room) ↔ Addressed lex verify s₀ pre s e := by
  have hone : ∀ {k R} {P : SocketId → Room → Prop}, s.relay e = some (k, R) →
      ((∀ socket room, s.relay e = some (socket, room) → P socket room) ↔ P k R) := by
    intro k R P hrelay
    refine ⟨fun h => h k R hrelay, fun h socket room heq => ?_⟩
    obtain ⟨rfl, rfl⟩ := Prod.mk.inj (Option.some.inj (hrelay.symm.trans heq))
    exact h
  cases e with
  | nodePositionLive socket payload =>
      obtain ⟨hs', hout⟩ := emitted_of_step rfl hstep
      exact (hone rfl).trans (inside_iff_of_emit hs' hout)
  | yjsAwareness socket n data =>
      obtain ⟨hs', hout⟩ := emitted_of_step rfl hstep
      exact (hone rfl).trans (inside_iff_of_emit hs' hout)
  | yjsSync socket n data => exact (hone rfl).trans (inside_iff_of_sync hJ hstep)
  | wsAwareness socket ws data =>
      obtain ⟨hout, hmanager, -⟩ := wsAwareness_of_step hstep
      refine iff_of_true ((hone rfl).mpr fun hreaches => ?_) trivial
      rcases hreaches with ⟨recipients, event, hmem, -⟩ | hne
      · rw [hout] at hmem
        cases hmem
      · exact absurd hmanager hne
  | redisReply reply =>
      exact iff_of_true (fun socket room hrelay _ => joined_of_redisReply hJ hrelay) trivial
  | _ => exact iff_of_true (fun socket room hrelay => by cases hrelay) trivial

/-! ### Messages from outside -/

private theorem delivered_eq_nil {room : Room}
    (h : ∀ recipients event, .emit recipients event ∈ outputs lex verify s e →
      recipients ∩ s.rooms room = ∅) : delivered lex verify room (s, e) = [] := by
  rw [delivered, List.filterMap_eq_nil_iff]
  intro out hout
  cases out with
  | emit recipients event => exact if_pos (h recipients event hout)
  | ack socket reply => rfl

/-- A message from outside that is addressed well has no effect. -/
private theorem outside_of_addressed {socket : SocketId} {room : Room}
    (hJ : JoinedInv lex verify s₀ pre s) (hpre : exec (step lex verify) s₀ pre = some s)
    (hstep : step lex verify s e = some s') (haddressed : Addressed lex verify s₀ pre s e)
    (hrelay : e.relay = some (socket, room))
    (hnot : ¬ HasJoined lex verify s₀ pre socket room) :
    s' = s ∧ delivered lex verify room (s, e) = [] := by
  have hempty : ∀ {event}, (s.inRoom room).erase socket = ∅ →
      outputs lex verify s e = [s.emitToOthers socket room event] →
        delivered lex verify room (s, e) = [] := by
    intro event hempty hout
    refine delivered_eq_nil fun recipients event' hmem => ?_
    rw [hout] at hmem
    obtain ⟨rfl, -⟩ := Output.emit.inj (List.mem_singleton.mp hmem)
    rw [hempty, Finset.empty_inter]
  cases e with
  | nodePositionLive k payload =>
      cases hrelay
      obtain ⟨hs', hout⟩ := emitted_of_step rfl hstep
      exact ⟨hs', hempty (haddressed.resolve_left hnot) hout⟩
  | yjsAwareness k n data =>
      cases hrelay
      obtain ⟨hs', hout⟩ := emitted_of_step rfl hstep
      exact ⟨hs', hempty (haddressed.resolve_left hnot) hout⟩
  | yjsSync k n data =>
      cases hrelay
      have hhandle := handleYjsSync_of_step hstep
      have hs' : s' = (s.handleYjsSync socket n data).1 := (congrArg Prod.fst hhandle).symm
      have hout : outputs lex verify s (.yjsSync socket n data) =
          (s.handleYjsSync socket n data).2 := (congrArg Prod.snd hhandle).symm
      cases hdocs : s.manager.mem.docs n with
      | none =>
          rw [State.handleYjsSync, hdocs] at hs' hout
          exact ⟨hs', delivered_eq_nil fun _ _ hmem => by rw [hout] at hmem; cases hmem⟩
      | some r =>
          obtain ⟨htype, hle⟩ := haddressed.resolve_left hnot r hdocs
          obtain ⟨hsame, hanswers⟩ := sync_of_settled socket hdocs htype hle
          refine ⟨hs'.trans hsame, delivered_eq_nil fun recipients event hmem => ?_⟩
          rw [hout] at hmem
          obtain ⟨reply, heq⟩ := hanswers _ hmem
          obtain ⟨rfl, -⟩ := Output.emit.inj heq
          ext k
          simp only [Finset.mem_inter, Finset.mem_singleton, Finset.notMem_empty, iff_false]
          rintro ⟨⟨rfl, -⟩, hroom⟩
          exact hnot (Visits.of_exec hpre hroom)
  | wsAwareness k ws data =>
      cases hrelay
      obtain ⟨hout, -, hsame⟩ := wsAwareness_of_step hstep
      refine ⟨hsame fun hws => hnot (hJ.workspace socket ws hws), delivered_eq_nil ?_⟩
      intro _ _ hmem
      rw [hout] at hmem
      cases hmem
  | _ => cases hrelay

/-! ### Runs -/

/-- **Relays.**  In a run everything that is passed on, or merged into a document, comes
from a socket that has joined the room, if and only if the clients keep to their rooms.
If they do, the messages for a room from sockets that had not joined it can be left out:
the run ends in the same state, and the members of the room receive the same. -/
theorem relaysInside_iff (lex : Lexical) (verify : String → Option UserId)
    (nodes : NodeId → Option DocManager.NodeRow)
    (memberships : UserId → WorkspaceId → Option Role) (es : List Event) :
    (RelaysInside lex verify (State.init nodes memberships) es ↔
      KeepsToRooms lex verify (State.init nodes memberships) es) ∧
    (KeepsToRooms lex verify (State.init nodes memberships) es →
      ∀ room p s, exec (step lex verify) (State.init nodes memberships) es = some s →
        Outside lex verify (State.init nodes memberships) es room p →
          exec (step lex verify) (State.init nodes memberships)
              (without (step lex verify) p (State.init nodes memberships) es) = some s ∧
            traffic lex verify (State.init nodes memberships)
                (without (step lex verify) p (State.init nodes memberships) es) room =
              traffic lex verify (State.init nodes memberships) es room) := by
  refine ⟨?_, fun hkeeps room p s hes houtside => ?_⟩
  · constructor
    · intro hinside pre e rest s s' hsplit hpre hstep
      exact (inside_iff_addressed (joinedInv_of_exec hpre) hstep).mp
        (hinside pre e rest s s' hsplit hpre hstep)
    · intro hkeeps pre e rest s s' hsplit hpre hstep
      exact (inside_iff_addressed (joinedInv_of_exec hpre) hstep).mpr
        (hkeeps pre e rest s s' hsplit hpre hstep)
  · have halong : Along (step lex verify) (fun s e s' => p (s, e) = true →
        s' = s ∧ delivered lex verify room (s, e) = []) (State.init nodes memberships) es := by
      rw [along_iff_forall_split]
      intro pre e rest s₁ s₂ hsplit hpre hstep hp
      obtain ⟨socket, hrelay, hnot⟩ := houtside pre e rest s₁ hsplit hpre hp
      exact outside_of_addressed (joinedInv_of_exec hpre) hpre hstep
        (hkeeps pre e rest s₁ s₂ hsplit hpre hstep) hrelay hnot
    refine ⟨(exec_without ?_ hes).1, flatMap_path_without halong hes⟩
    exact halong.mono fun _ _ _ h hp => (h hp).1

/-- The socket of user `9` joins workspace `7`; the one of user `8` only connects. -/
def strangerConnects : List Event :=
  joinSession 0 "token of 9" 7 0 ++ [.connect (some "token of 8")]

/-- A move of a node of workspace `7`, by the socket of user `8`. -/
def strangerMoves : Event := .nodePositionLive 1 ⟨7, 1, 3, 4⟩

/-- The member receives the position, and nothing without the message of the stranger. -/
theorem strangerMoves_notInside :
    ¬ RelaysInside .plain plainToken (State.init (fun _ => none) (members [(9, 7, .EDITOR)]))
        (strangerConnects ++ [strangerMoves]) ∧
      traffic .plain plainToken (State.init (fun _ => none) (members [(9, 7, .EDITOR)]))
          (strangerConnects ++ [strangerMoves]) (.workspace 7) ≠
        traffic .plain plainToken (State.init (fun _ => none) (members [(9, 7, .EDITOR)]))
          strangerConnects (.workspace 7) := by
  refine ⟨fun hinside => ?_, by decide +kernel⟩
  have hrun : (exec (step .plain plainToken)
      (State.init (fun _ => none) (members [(9, 7, .EDITOR)])) strangerConnects).any (fun s =>
        (step .plain plainToken s strangerMoves).isSome &&
          decide ((s.inRoom (.workspace 7)).erase 1 ≠ ∅)) = true := by
    decide +kernel
  obtain ⟨s, hs, hrun⟩ := (Option.any_eq_true _ _).mp hrun
  rw [Bool.and_eq_true] at hrun
  obtain ⟨s', hstep⟩ := Option.isSome_iff_exists.mp hrun.1
  obtain ⟨-, hout⟩ := emitted_of_step rfl hstep
  have hjoined := hinside strangerConnects strangerMoves [] s s' rfl hs hstep 1 _ rfl
    (Or.inl ((reachesOthers_iff hout).mpr (of_decide_eq_true hrun.2)))
  exact absurd hjoined (by decide +kernel)

end AideepWebsocket.Gateway
