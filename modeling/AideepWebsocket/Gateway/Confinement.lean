import AideepWebsocket.Gateway.Sessions

/-!
# Who hears of a workspace

Four events are about a workspace as a whole: its presence, the positions of its nodes, the
awareness of its members and what the API server has done in it.  They are emitted to the
two rooms of the workspace, and the cached awareness to the socket that has just entered.

Nobody is in these rooms whose user has not been found in `users_workspaces`: the rooms are
entered in `join_workspace` alone, after `checkWorkspace`, and `client.data.userId` is set
once.  The check is not repeated: who has lost the membership stays until the socket goes.

* `Sent` — what is emitted, on what occasion, and to whom;
* `Entered` — the invariant: who is in a room, or about to be shown its awareness, has
  passed the check;
* `RoomNames` — the texts that name the rooms;
* `confined` — **events of a workspace are confined to it**, in every run.
-/

namespace AideepWebsocket.Gateway

open Library
open DocManager (NodeRow Reply)

variable {lex : Lexical} {verify : String → Option UserId} {s s' : State} {e : Event}
  {recipients : Finset SocketId} {event : ServerEvent} {out : List Output}

/-! ### What is emitted -/

/-- The workspace that an event is about as a whole. -/
def ServerEvent.workspace : ServerEvent → Option WorkspaceId
  | .presenceState workspaceId _ => some workspaceId
  | .nodePositionLive payload => some payload.workspaceId
  | .yjsWsAwareness workspaceId _ => some workspaceId
  | .workspaceEvent event => some event.workspaceId
  | .yjsSync .. | .yjsAwareness .. => none

/-- On what occasion, and to whom, an event is emitted. -/
inductive Sent (s : State) (e : Event) (recipients : Finset SocketId) : ServerEvent → Prop
  | presenceState (ws : WorkspaceId) (members : List PresenceMember) (reply : Reply)
      (he : e = .redisReply reply) (hto : recipients = s.inRoom (.workspace ws)) :
      Sent s e recipients (.presenceState ws members)
  | nodePositionLive (socket : SocketId) (payload : NodePosition)
      (he : e = .nodePositionLive socket payload)
      (hto : recipients = (s.inRoom (.workspace payload.workspaceId)).erase socket) :
      Sent s e recipients (.nodePositionLive payload)
  /-- `join_workspace` has found the awareness of the workspace. -/
  | cachedAwareness (h : HandlerId) (socket : SocketId) (ws : WorkspaceId)
      (member : PresenceMember) (data : Bytes) (reply : Reply) (he : e = .redisReply reply)
      (hhandler : s.handlers h = some ⟨socket, .joinGetCachedAwareness ws member⟩)
      (hto : recipients = {socket} ∩ s.connected) : Sent s e recipients (.yjsWsAwareness ws data)
  | wsAwareness (socket : SocketId) (ws : WorkspaceId) (data : Bytes) (reply : Reply)
      (he : e = .redisReply reply) (hto : recipients = (s.inRoom (.yjsWsRoom ws)).erase socket) :
      Sent s e recipients (.yjsWsAwareness ws data)
  | workspaceEvent (event : WsEvent) (he : e = .broadcast event)
      (hto : recipients ⊆ s.inRoom (.workspace event.workspaceId)) :
      Sent s e recipients (.workspaceEvent event)
  /-- An event of a node. -/
  | node (event : ServerEvent) (hws : event.workspace = none) : Sent s e recipients event

private theorem sent_of_redisReply {reply : Reply} (h : s.redisReply reply = some (s', out))
    (hmem : .emit recipients event ∈ out) : Sent s (.redisReply reply) recipients event := by
  unfold State.redisReply at h
  split at h
  · cases h
  · next i rest _ =>
      dsimp only at h
      split at h
      · cases h
        cases hmem
      · next socket pending hhandler =>
          cases pending with
          | joinGetCachedAwareness ws member =>
              cases h
              obtain ⟨data, -, heq⟩ := List.mem_map.mp hmem
              obtain ⟨rfl, rfl⟩ := Output.emit.inj heq
              exact .cachedAwareness i socket ws member data reply rfl hhandler rfl
          | joinListPresence ws =>
              cases reply with
              | ok =>
                  cases h
                  have hemit : Output.emit recipients event =
                      ({ s with commands := rest } : State).emitToRoom (.workspace ws)
                        (.presenceState ws (s.presence ws)) := by
                    simpa using hmem
                  obtain ⟨rfl, rfl⟩ := Output.emit.inj hemit
                  exact .presenceState ws _ .ok rfl rfl
              | _ =>
                  cases h
                  cases hmem
          | leaveListPresence ws =>
              cases reply with
              | ok =>
                  cases h
                  obtain ⟨rfl, rfl⟩ := Output.emit.inj (List.mem_singleton.mp hmem)
                  exact .presenceState ws _ .ok rfl rfl
              | _ =>
                  cases h
                  cases hmem
          | cacheAwareness ws data =>
              cases h
              obtain ⟨heq, rfl⟩ := Output.emit.inj (List.mem_singleton.mp hmem)
              exact .wsAwareness socket ws data reply rfl heq
          | _ => cases reply <;> cases h <;> cases hmem

private theorem sent_of_handleYjsSync {socket : SocketId} {n : NodeId} {data : SyncMessage}
    (hmem : .emit recipients event ∈ (s.handleYjsSync socket n data).2) :
    event.workspace = none := by
  have hanswer {r : DocManager.DocRef} (hmem : .emit recipients event ∈
      (readSyncMessage (s.manager.mem.heap r).doc data).reply.toList.map fun reply =>
        s.emit socket (.yjsSync n reply)) : event.workspace = none := by
    obtain ⟨reply, -, heq⟩ := List.mem_map.mp hmem
    obtain ⟨-, rfl⟩ := Output.emit.inj heq
    rfl
  unfold State.handleYjsSync at hmem
  split at hmem
  · cases hmem
  · dsimp only at hmem
    split at hmem
    · split at hmem
      · exact hanswer hmem
      · rcases List.mem_append.mp hmem with hmem | hmem
        · exact hanswer hmem
        · obtain ⟨-, rfl⟩ := Output.emit.inj (List.mem_singleton.mp hmem)
          rfl
    · exact hanswer hmem

private theorem not_sent_of_membershipReply {h : HandlerId} {ok : Bool}
    (hs' : s.membershipReply h ok = some (s', out)) : .emit recipients event ∉ out := by
  rcases s.membershipReply_cases hs' with
    ⟨socket, ws, member, -, ⟨-, -, rfl | ⟨text, rfl⟩⟩ | ⟨role, -, -, rfl, -⟩⟩ |
    ⟨socket, userId, ws, n, -, ⟨-, -, rfl⟩ | ⟨-, -, -, text, rfl⟩ | ⟨role, -, -, rfl, -⟩⟩ <;> simp

/-- **Every emission has its occasion.** -/
theorem sent_of_outputs (hsent : .emit recipients event ∈ outputs lex verify s e) :
    Sent s e recipients event := by
  obtain ⟨s', out, h, hmem⟩ : ∃ s' out, handle lex verify s e = some (s', out) ∧
      .emit recipients event ∈ out := by
    unfold outputs at hsent
    cases hhandle : handle lex verify s e with
    | none => simp [hhandle] at hsent
    | some p => exact ⟨p.1, p.2, rfl, by simpa [hhandle] using hsent⟩
  clear hsent
  cases e with
  | redisReply reply => exact sent_of_redisReply h hmem
  | membershipReply i ok => exact absurd hmem (not_sent_of_membershipReply h)
  | nodePositionLive socket payload =>
      rw [handle] at h
      split at h <;> cases h
      obtain ⟨rfl, rfl⟩ := Output.emit.inj (List.mem_singleton.mp hmem)
      exact .nodePositionLive socket payload rfl rfl
  | broadcast event' =>
      cases h
      obtain ⟨rfl, rfl⟩ := Output.emit.inj (List.mem_singleton.mp hmem)
      refine .workspaceEvent event' rfl ?_
      split
      · split
        · exact Finset.sdiff_subset
        · exact Finset.Subset.refl _
      · exact Finset.Subset.refl _
  | yjsSync socket n data =>
      rw [handle] at h
      split at h
      · rw [← show _ = out from congrArg Prod.snd (Option.some.inj h)] at hmem
        exact .node event (sent_of_handleYjsSync hmem)
      · cases h
  | yjsAwareness socket n data =>
      rw [handle] at h
      split at h <;> cases h
      obtain ⟨-, rfl⟩ := Output.emit.inj (List.mem_singleton.mp hmem)
      exact .node _ rfl
  | resumeYjsJoin i =>
      obtain ⟨socket, ws, role, n, get, c, -, -, ⟨failure, -, -, rfl⟩ | ⟨r, -, heq⟩⟩ :=
        s.resumeYjsJoin_cases h
      · cases hmem
      · cases heq
        refine .node _ ?_
        simp only [State.emit, List.mem_cons, Output.emit.injEq, reduceCtorEq,
          List.not_mem_nil, or_false] at hmem
        rw [hmem.2]
        rfl
  | announce t =>
      rw [handle, State.announce] at h
      split at h
      · cases h
      · split at h
        · cases h
        · split at h <;> cases h
          obtain ⟨-, rfl⟩ := Output.emit.inj (List.mem_singleton.mp hmem)
          exact .node _ rfl
  | broadcastYjsUpdate n update =>
      cases h
      obtain ⟨-, rfl⟩ := Output.emit.inj (List.mem_singleton.mp hmem)
      exact .node _ rfl
  | joinWorkspace socket ws userName color profile =>
      rw [handle] at h
      split at h
      · unfold State.handleJoin at h
        split at h <;> cases h
        · exact absurd hmem (by simp)
        · cases hmem
      · cases h
  | yjsJoin socket n =>
      rw [handle] at h
      split at h
      · rw [← show _ = out from congrArg Prod.snd (Option.some.inj h)] at hmem
        rcases s.handleYjsJoin_cases socket n with
          ⟨text, heq⟩ | ⟨userId, ws, -, -, ⟨-, heq⟩ | ⟨role, -, heq⟩⟩ <;> rw [heq] at hmem
        · exact absurd hmem (by simp)
        · cases hmem
        · cases hmem
      · cases h
  | manager x =>
      rw [handle] at h
      split at h
      · obtain ⟨m, -, heq⟩ := Option.map_eq_some_iff.mp h
        cases heq
        cases hmem
      · cases h
  | connect token | setMembership userId ws role | awarenessExpire ws | presenceExpire ws
  | restart =>
      cases h
      cases hmem
  | _ =>
      rw [handle] at h
      split at h <;> cases h
      cases hmem

/-! ### Who enters -/

/-- The socket is in a room of the workspace. -/
def State.Inside (s : State) (k : SocketId) (ws : WorkspaceId) : Prop :=
  k ∈ s.rooms (.workspace ws) ∨ k ∈ s.rooms (.yjsWsRoom ws)

/-- In the step to `s'`, the row that `join_workspace` awaits has been found. -/
def State.Checked (s s' : State) (k : SocketId) (ws : WorkspaceId) : Prop :=
  ∃ h member role, s.handlers h = some ⟨k, .joinCheckWorkspace ws member⟩ ∧
    (member.userId, ws, role) ∈ s'.passed

/-- What a step can do to the rooms of a workspace. -/
structure EnterStep (s s' : State) : Prop where
  query : ∀ {h k ws member}, s'.handlers h = some ⟨k, .joinCheckWorkspace ws member⟩ →
    s.handlers h = some ⟨k, .joinCheckWorkspace ws member⟩ ∨ (s.data k).userId = some member.userId
  shown : ∀ {h k ws member}, s'.handlers h = some ⟨k, .joinGetCachedAwareness ws member⟩ →
    s.handlers h = some ⟨k, .joinGetCachedAwareness ws member⟩ ∨ s.Checked s' k ws
  room : ∀ {k ws}, s'.Inside k ws → s.Inside k ws ∨ s.Checked s' k ws

/-- The handler is a `join_workspace` that has not entered its rooms, or has just done so. -/
def Pending.entering : Pending → Bool
  | .joinCheckWorkspace _ _ | .joinGetCachedAwareness _ _ => true
  | _ => false

namespace EnterStep

private theorem of_inside (hhandlers : ∀ {h x}, s'.handlers h = some x →
      s.handlers h = some x ∨ x.pending.entering = false)
    (hrooms : ∀ {k ws}, s'.Inside k ws → s.Inside k ws) : EnterStep s s' where
  query hx := (hhandlers hx).imp_right fun hfalse => by cases hfalse
  shown hx := (hhandlers hx).imp_right fun hfalse => by cases hfalse
  room hk := Or.inl (hrooms hk)

private theorem of_same (hhandlers : s'.handlers = s.handlers) (hrooms : s'.rooms = s.rooms) :
    EnterStep s s' :=
  of_inside (fun hx => Or.inl (hhandlers ▸ hx)) fun hk => by
    unfold State.Inside at hk ⊢
    rwa [hrooms] at hk

/-- A handler that enters no room goes on or ends. -/
private theorem of_update {h : HandlerId} {y : Option Handler}
    (hy : ∀ x ∈ y, x.pending.entering = false)
    (hhandlers : s'.handlers = Function.update s.handlers h y)
    (hrooms : ∀ {k ws}, s'.Inside k ws → s.Inside k ws) : EnterStep s s' := by
  refine of_inside (fun {i x} hx => ?_) hrooms
  rw [hhandlers] at hx
  by_cases hi : i = h
  · rw [hi, Function.update_self] at hx
    exact Or.inr (hy x hx)
  · rw [Function.update_of_ne hi] at hx
    exact Or.inl hx

end EnterStep

private theorem inside_of_rooms (hrooms : ∀ room k, k ∈ s'.rooms room → k ∈ s.rooms room)
    {k : SocketId} {ws : WorkspaceId} (h : s'.Inside k ws) : s.Inside k ws :=
  h.imp (hrooms _ k) (hrooms _ k)

private theorem enterStep_membershipReply {h : HandlerId} {ok : Bool}
    (hs' : s.membershipReply h ok = some (s', out)) : EnterStep s s' := by
  rcases s.membershipReply_cases hs' with
    ⟨socket, ws, member, hhandler, ⟨-, rfl, -⟩ | ⟨role, -, -, -, rfl⟩⟩ |
    ⟨socket, userId, ws, n, hhandler, ⟨-, rfl, -⟩ | ⟨-, -, rfl, -⟩ | ⟨role, -, -, -, rfl⟩⟩
  · exact .of_update (h := h) (y := none) (by simp) rfl id
  · have hchecked : ∀ {s' : State}, s'.passed = s.passed ++ [(member.userId, ws, role)] →
        s.Checked s' socket ws := fun hpassed =>
      ⟨h, member, role, hhandler, hpassed ▸ List.mem_append_right _ (List.mem_singleton_self _)⟩
    refine ⟨fun {i k ws' member'} hx => ?_, fun {i k ws' member'} hx => ?_, fun {k ws'} hk => ?_⟩
    · change Function.update s.handlers h _ i = _ at hx
      by_cases hi : i = h
      · rw [hi, Function.update_self] at hx
        cases hx
      · rw [Function.update_of_ne hi] at hx
        exact Or.inl hx
    · change Function.update s.handlers h _ i = _ at hx
      by_cases hi : i = h
      · rw [hi, Function.update_self] at hx
        cases hx
        exact Or.inr (hchecked rfl)
      · rw [Function.update_of_ne hi] at hx
        exact Or.inl hx
    · by_cases hself : k = socket ∧ ws' = ws
      · obtain ⟨rfl, rfl⟩ := hself
        exact Or.inr (hchecked rfl)
      · refine Or.inl (hk.imp (fun hk => ?_) fun hk => ?_)
        · change k ∈ Function.update (Function.update s.rooms _ _) _ _ _ at hk
          rw [Function.update_of_ne (by simp)] at hk
          by_cases hws : ws' = ws
          · subst hws
            rw [Function.update_self] at hk
            exact (Finset.mem_insert.mp hk).resolve_left fun hk => hself ⟨hk, rfl⟩
          · rwa [Function.update_of_ne (by simpa using hws)] at hk
        · change k ∈ Function.update (Function.update s.rooms _ _) _
            (insert socket (Function.update s.rooms _ _ _)) _ at hk
          by_cases hws : ws' = ws
          · subst hws
            rw [Function.update_self, Function.update_of_ne (by simp)] at hk
            exact (Finset.mem_insert.mp hk).resolve_left fun hk => hself ⟨hk, rfl⟩
          · rwa [Function.update_of_ne (by simpa using hws), Function.update_of_ne (by simp)] at hk
  · exact .of_update (h := h) (y := none) (by simp) rfl id
  · exact .of_update (h := h) (y := none) (by simp) rfl id
  · refine .of_inside (fun {i x} hx => ?_) id
    change Function.update (Function.update s.handlers h none) s.nextHandler _ i = _ at hx
    by_cases hi : i = s.nextHandler
    · rw [hi, Function.update_self] at hx
      cases hx
      exact Or.inr rfl
    · rw [Function.update_of_ne hi] at hx
      by_cases hih : i = h
      · rw [hih, Function.update_self] at hx
        cases hx
      · rw [Function.update_of_ne hih] at hx
        exact Or.inl hx

private theorem enterStep_redisReply {reply : Reply} (hs' : s.redisReply reply = some (s', out)) :
    EnterStep s s' := by
  obtain ⟨h, rest, -, ⟨rfl, -⟩ | ⟨socket, pending, -, -, hcase⟩⟩ := s.redisReply_cases hs'
  · exact .of_same rfl rfl
  · rcases hcase with ⟨next, hnext, rfl⟩ | ⟨-, -, rfl, _, _, hclean⟩ | ⟨-, rfl⟩
    · -- no handler enters after an answer of Redis
      have hentering : next.entering = false := by
        cases pending <;> cases hnext <;> rfl
      exact .of_update (h := h) (y := some ⟨socket, next⟩) (by simp [hentering]) rfl id
    · rw [hclean]
      exact .of_update (h := h) (y := none) (by simp) rfl id
    · exact .of_update (h := h) (y := none) (by simp) rfl id

private theorem enterStep_resumeYjsJoin {h : HandlerId}
    (hs' : s.resumeYjsJoin h = some (s', out)) : EnterStep s s' := by
  obtain ⟨socket, ws, role, n, get, c, -, -, ⟨failure, -, rfl, -⟩ | ⟨r, -, heq⟩⟩ :=
    s.resumeYjsJoin_cases hs'
  · exact .of_update (h := h) (y := none) (by simp) rfl id
  · cases heq
    refine .of_update (h := h) (y := none) (by simp) rfl fun {k ws'} hk => ?_
    refine hk.imp (fun hk => ?_) fun hk => ?_ <;>
      · change k ∈ Function.update s.rooms _ _ _ at hk
        rwa [Function.update_of_ne (by simp)] at hk

/-- **One step.** -/
private theorem enterStep_of_step (hstep : step lex verify s e = some s') : EnterStep s s' := by
  obtain ⟨out, h⟩ : ∃ out, handle lex verify s e = some (s', out) := ⟨_, step_eq_some.mp hstep⟩
  cases e with
  | connect token =>
      cases h
      unfold State.handleConnection
      split
      · exact .of_same rfl rfl
      · refine .of_inside (fun hx => Or.inl hx) fun {k ws} hk => ?_
        refine hk.imp (fun hk => ?_) fun hk => ?_ <;>
          · change k ∈ Function.update s.rooms _ _ _ at hk
            rwa [Function.update_of_ne (by simp)] at hk
  | disconnect socket =>
      rw [handle] at h
      split at h
      · cases h
        have hrooms (room : Room) (k : SocketId) (hk : k ∈ (s.rooms room).erase socket) :
            k ∈ s.rooms room := Finset.mem_of_mem_erase hk
        rcases s.handleDisconnect_cases socket with
          ⟨ws, userId, -, -, heq⟩ | ⟨-, heq, _, _, hclean⟩
        · rw [heq]
          exact .of_update (y := some ⟨socket, .leaveRemovePresence ws userId⟩)
            (by simp [Pending.entering]) rfl (inside_of_rooms hrooms)
        · rw [heq, hclean]
          exact .of_inside Or.inl (inside_of_rooms hrooms)
      · cases h
  | joinWorkspace socket ws userName color profile =>
      rw [handle] at h
      split at h
      · unfold State.handleJoin at h
        split at h
        · cases h
          exact .of_same rfl rfl
        · next userId huser =>
            cases h
            have hsuspended {i : HandlerId} {x : Handler} (hx : (s.suspend socket
                (.joinCheckWorkspace ws ⟨userId, userName, color, profile⟩)).handlers i = some x) :
                s.handlers i = some x ∨
                  x = ⟨socket, .joinCheckWorkspace ws ⟨userId, userName, color, profile⟩⟩ := by
              change Function.update s.handlers s.nextHandler _ i = _ at hx
              by_cases hi : i = s.nextHandler
              · rw [hi, Function.update_self] at hx
                exact Or.inr (Option.some.inj hx).symm
              · rw [Function.update_of_ne hi] at hx
                exact Or.inl hx
            refine ⟨fun hx => ?_, fun hx => ?_, Or.inl⟩
            · refine (hsuspended hx).imp_right fun heq => ?_
              cases heq
              exact huser
            · exact (hsuspended hx).imp_right fun heq => by cases heq
      · cases h
  | yjsJoin socket n =>
      rw [handle] at h
      split at h
      · have hs' := congrArg Prod.fst (Option.some.inj h)
        rw [← show _ = s' from hs']
        rcases s.handleYjsJoin_cases socket n with
          ⟨text, heq⟩ | ⟨userId, ws, -, -, ⟨-, heq⟩ | ⟨role, -, heq⟩⟩
        · rw [heq]
          exact .of_same rfl rfl
        · rw [heq]
          exact .of_update (y := some ⟨socket, .yjsCheckWorkspace userId ws n⟩)
            (by simp [Pending.entering]) rfl id
        · rw [heq]
          exact .of_update (y := some ⟨socket, .yjsGetOrCreateDoc ws role n
            (s.manager.getOrCreateDoc n ws).1.loader.nextGet⟩) (by simp [Pending.entering]) rfl id
      · cases h
  | membershipReply i ok => exact enterStep_membershipReply h
  | resumeYjsJoin i => exact enterStep_resumeYjsJoin h
  | redisReply reply => exact enterStep_redisReply h
  | wsAwareness socket ws data =>
      rw [handle] at h
      split at h
      · cases h
        unfold State.handleWsAwareness
        split
        · exact .of_update (y := some ⟨socket, .cacheAwareness ws data⟩)
            (by simp [Pending.entering]) rfl id
        · exact .of_same rfl rfl
      · cases h
  | yjsLeave socket n =>
      rw [handle] at h
      split at h
      · cases h
        have hinside {k : SocketId} {ws : WorkspaceId}
            (hk : (s.leave socket (.yjsRoom n)).Inside k ws) : s.Inside k ws := by
          refine hk.imp (fun hk => ?_) fun hk => ?_ <;>
            · change k ∈ Function.update s.rooms _ _ _ at hk
              rwa [Function.update_of_ne (by simp)] at hk
        unfold State.handleYjsLeave
        dsimp only
        split <;> exact .of_inside Or.inl hinside
      · cases h
  | restart =>
      cases h
      refine .of_inside (fun hx => by cases hx) fun {k ws} hk => ?_
      rcases hk with hk | hk <;> exact absurd hk (Finset.notMem_empty _)
  | presenceExpire ws =>
      cases h
      exact .of_same rfl rfl
  | _ =>
      have hsame := sameSessions_of_relayed hstep trivial
      exact .of_same hsame.handlers hsame.rooms

/-! ### The invariant -/

/-- Who is in a room of a workspace, or about to be shown its awareness, has passed the
check. -/
structure Entered (s : State) : Prop where
  session : SessionInv (fun _ _ => True) s
  query : ∀ {h k ws member}, s.handlers h = some ⟨k, .joinCheckWorkspace ws member⟩ →
    (s.data k).userId = some member.userId
  shown : ∀ {h k ws member}, s.handlers h = some ⟨k, .joinGetCachedAwareness ws member⟩ →
    ∃ role, s.Passed k ws role
  room : ∀ {k ws}, s.Inside k ws → ∃ role, s.Passed k ws role

namespace Entered

theorem init (nodes : NodeId → Option NodeRow)
    (memberships : UserId → WorkspaceId → Option Role) : Entered (.init nodes memberships) where
  session := sessionInv_init _ nodes memberships
  query hx := by cases hx
  shown hx := by cases hx
  room hk := by rcases hk with hk | hk <;> exact absurd hk (Finset.notMem_empty _)

/-- A user stays the user of the socket, and what has been found stays found. -/
private theorem keep (hE : Entered s) (hstep : step lex verify s e = some s') :
    (∀ {k userId}, (s.data k).userId = some userId → (s'.data k).userId = some userId) ∧
      ∀ {x}, x ∈ s.passed → x ∈ s'.passed := by
  have hupdate {socket : SocketId} {d : ClientData}
      (hdata : s'.data = Function.update s.data socket d)
      (huser : d.userId = (s.data socket).userId) {k : SocketId} {userId : UserId}
      (hu : (s.data k).userId = some userId) : (s'.data k).userId = some userId := by
    by_cases hk : k = socket
    · rw [hdata, hk, Function.update_self, huser]
      exact hk ▸ hu
    · rwa [hdata, Function.update_of_ne hk]
  cases step_sessions hstep with
  | same hdata hpassed | query _ _ _ _ _ _ _ hdata hpassed | load _ _ _ _ _ _ _ _ hdata hpassed =>
      exact ⟨fun hu => hdata ▸ hu, fun hx => hpassed ▸ hx⟩
  | connect userId hdata hpassed =>
      refine ⟨fun {k u} hu => ?_, fun hx => hpassed ▸ hx⟩
      have hk : k ≠ s.nextSocket := by
        rintro rfl
        rw [hE.session.fresh le_rfl] at hu
        cases hu
      rwa [hdata, Function.update_of_ne hk]
  | joined socket userId ws role hdata hpassed =>
      exact ⟨hupdate hdata rfl, fun hx => hpassed ▸ List.mem_append_left _ hx⟩
  | cached h socket userId ws n membership hhandler hdata hpassed =>
      exact ⟨hupdate hdata rfl, fun hx => hpassed ▸ List.mem_append_left _ hx⟩
  | admitted h socket ws role n get he hhandler hdata hpassed =>
      exact ⟨hupdate hdata rfl, fun hx => hpassed ▸ hx⟩

/-- **Every step keeps it.** -/
theorem step (hE : Entered s) (hstep : Gateway.step lex verify s e = some s') : Entered s' := by
  have hstep' := enterStep_of_step hstep
  obtain ⟨huser, hpassed⟩ := hE.keep hstep
  have hkeep {k : SocketId} {ws : WorkspaceId} (h : ∃ role, s.Passed k ws role) :
      ∃ role, s'.Passed k ws role := by
    obtain ⟨role, userId, hu, hmem⟩ := h
    exact ⟨role, userId, huser hu, hpassed hmem⟩
  have hchecked {k : SocketId} {ws : WorkspaceId} (h : s.Checked s' k ws) :
      ∃ role, s'.Passed k ws role := by
    obtain ⟨i, member, role, hx, hmem⟩ := h
    exact ⟨role, member.userId, huser (hE.query hx), hmem⟩
  refine ⟨hE.session.step hstep fun _ _ => trivial, fun hx => ?_, fun hx => ?_, fun hk => ?_⟩
  · rcases hstep'.query hx with hx | hu
    · exact huser (hE.query hx)
    · exact huser hu
  · rcases hstep'.shown hx with hx | hx
    · exact hkeep (hE.shown hx)
    · exact hchecked hx
  · rcases hstep'.room hk with hk | hk
    · exact hkeep (hE.room hk)
    · exact hchecked hk

theorem of_exec {nodes : NodeId → Option NodeRow}
    {memberships : UserId → WorkspaceId → Option Role} {es : List Event}
    (hes : exec (Gateway.step lex verify) (.init nodes memberships) es = some s) : Entered s :=
  Reachable.invariant ⟨es, hes⟩ (init nodes memberships) fun _ _ _ hstep hE => hE.step hstep

end Entered

/-! ### The names of the rooms -/

/-- How identifiers are written into the names of rooms.  Those of users, workspaces and
nodes are UUIDs: they contain no colon, and are longer than the id of a socket, which names a
room too. -/
structure RoomNames where
  user : UserId → String
  workspace : WorkspaceId → String
  node : NodeId → String
  socket : SocketId → String
  workspace_injective : Function.Injective workspace
  workspace_colon : ∀ ws, ':' ∉ (workspace ws).toList
  workspace_ne_socket : ∀ ws k, workspace ws ≠ socket k

namespace RoomNames

/-- `userRoom`, the id of a workspace, `yjsRoom` and `yjsWsRoom`. -/
def text (names : RoomNames) : Room → String
  | .userRoom userId => "user:" ++ names.user userId
  | .workspace workspaceId => names.workspace workspaceId
  | .yjsRoom nodeId => "yjs:" ++ names.node nodeId
  | .yjsWsRoom workspaceId => "yjs:ws:" ++ names.workspace workspaceId

variable {names : RoomNames} {ws : WorkspaceId}

/-- The id of a workspace names no room but that of the workspace. -/
theorem room_of_text {room : Room} (h : names.text room = names.workspace ws) :
    room = .workspace ws := by
  have hcolon : ':' ∉ (names.text room).toList := by
    rw [h]
    exact names.workspace_colon ws
  cases room with
  | workspace workspaceId => rw [names.workspace_injective h]
  | userRoom userId => exact absurd (by simp [text, String.toList_append]) hcolon
  | yjsRoom nodeId => exact absurd (by simp [text, String.toList_append]) hcolon
  | yjsWsRoom workspaceId => exact absurd (by simp [text, String.toList_append]) hcolon

/-- The sockets in a room of that name. -/
def inNamed (names : RoomNames) (s : State) (name : String) : Set SocketId :=
  {k | k ∈ s.connected ∧ (names.socket k = name ∨ ∃ room, names.text room = name ∧ k ∈ s.rooms room)}

theorem mem_inNamed_workspace {k : SocketId} :
    k ∈ names.inNamed s (names.workspace ws) ↔ k ∈ s.inRoom (.workspace ws) := by
  rw [State.inRoom, Finset.mem_inter, and_comm]
  refine and_congr_right fun _ => ⟨?_, fun hk => Or.inr ⟨_, rfl, hk⟩⟩
  rintro (hsocket | ⟨room, hroom, hk⟩)
  · exact absurd hsocket.symm (names.workspace_ne_socket ws k)
  · rwa [room_of_text hroom] at hk

/-- Whom an emission reaches.  The server names the rooms itself, but for that of a live
position: `handleLivePosition` takes the name that the client has sent. -/
def reached (names : RoomNames) (s : State) (recipients : Finset SocketId) (name : String) :
    Event → Set SocketId
  | .nodePositionLive socket _ => {k | k ∈ names.inNamed s name ∧ k ≠ socket}
  | _ => ↑recipients

end RoomNames

/-- **Events of a workspace are confined to it.**  Whatever has happened, who is sent an
event of a workspace is connected, and the user of the socket has been found among the
members of the workspace.  Of a live position this is said if the client has named the room
by the id of a workspace: nothing checks the name, and another one is another room. -/
theorem confined (lex : Lexical) (verify : String → Option UserId) (names : RoomNames)
    (nodes : NodeId → Option NodeRow) (memberships : UserId → WorkspaceId → Option Role)
    {es : List Event} {s : State} {e : Event} {recipients : Finset SocketId}
    {event : ServerEvent} {ws : WorkspaceId} {name : String} {k : SocketId}
    (hes : exec (step lex verify) (.init nodes memberships) es = some s)
    (hsent : .emit recipients event ∈ outputs lex verify s e)
    (hws : event.workspace = some ws)
    (hname : ∀ socket payload, e = .nodePositionLive socket payload → name = names.workspace ws)
    (hk : k ∈ names.reached s recipients name e) :
    k ∈ s.connected ∧ ∃ role, s.Passed k ws role := by
  have hE := Entered.of_exec hes
  have hroom {room : Room} (h : k ∈ s.inRoom room) (hinside : k ∈ s.rooms room → s.Inside k ws) :
      k ∈ s.connected ∧ ∃ role, s.Passed k ws role := by
    obtain ⟨hmem, hconnected⟩ := Finset.mem_inter.mp h
    exact ⟨hconnected, hE.room (hinside hmem)⟩
  cases sent_of_outputs hsent with
  | presenceState ws' members reply he hto =>
      subst he
      obtain rfl := Option.some.inj hws
      have hk : k ∈ recipients := hk
      exact hroom (hto ▸ hk) Or.inl
  | nodePositionLive socket payload he hto =>
      subst he
      obtain rfl := hname socket payload rfl
      obtain ⟨hk, -⟩ := hk
      exact hroom (RoomNames.mem_inNamed_workspace.mp hk) Or.inl
  | cachedAwareness h socket ws' member data reply he hhandler hto =>
      subst he
      obtain rfl := Option.some.inj hws
      have hk : k ∈ recipients := hk
      obtain ⟨hself, hconnected⟩ := Finset.mem_inter.mp (hto ▸ hk)
      obtain rfl := Finset.mem_singleton.mp hself
      exact ⟨hconnected, hE.shown hhandler⟩
  | wsAwareness socket ws' data reply he hto =>
      subst he
      obtain rfl := Option.some.inj hws
      have hk : k ∈ recipients := hk
      exact hroom (Finset.mem_of_mem_erase (hto ▸ hk)) Or.inr
  | workspaceEvent event' he hto =>
      subst he
      obtain rfl := Option.some.inj hws
      exact hroom (hto hk) Or.inl
  | node event' hnone =>
      rw [hnone] at hws
      cases hws

/-- Names without digits: an id is as many letters. -/
def RoomNames.plain : RoomNames where
  user userId := String.ofList (List.replicate userId 'u')
  workspace ws := String.ofList (List.replicate ws 'w')
  node nodeId := String.ofList (List.replicate nodeId 'n')
  socket k := String.ofList ('s' :: List.replicate k 's')
  workspace_injective ws ws' h := by
    have hlist := congrArg (fun text => text.toList.length) h
    simpa using hlist
  workspace_colon ws h := by
    rw [String.toList_ofList] at h
    exact absurd (List.eq_of_mem_replicate h) (by decide)
  workspace_ne_socket ws k h := by
    have hlist := congrArg String.toList h
    rw [String.toList_ofList, String.toList_ofList] at hlist
    have hmem : 's' ∈ List.replicate ws 'w' := hlist ▸ List.mem_cons_self
    exact absurd (List.eq_of_mem_replicate hmem) (by decide)

/-- Two members of workspace `7` and one of workspace `6`. -/
def threeSessions : List Event :=
  joinSession 0 "token of 9" 7 0 ++ joinSession 1 "token of 8" 6 1 ++
    joinSession 2 "token of 9" 7 2

/-- One member of workspace `7` moves a node, and the other is shown it. -/
theorem nodeMoved_confined :
    ∃ s, exec (step .plain plainToken)
        (State.init (fun _ => none) (members [(9, 7, .EDITOR), (8, 6, .EDITOR)])) threeSessions =
          some s ∧
      2 ∈ s.connected ∧ ∃ role, s.Passed 2 7 role := by
  have hrun : (exec (step .plain plainToken)
      (State.init (fun _ => none) (members [(9, 7, .EDITOR), (8, 6, .EDITOR)]))
      threeSessions).any (fun s =>
        decide (.emit {2} (.nodePositionLive ⟨7, 1, 0, 0⟩) ∈
            outputs .plain plainToken s (.nodePositionLive 0 ⟨7, 1, 0, 0⟩) ∧
          2 ∈ s.inRoom (.workspace 7))) = true := by
    decide +kernel
  obtain ⟨s, hs, hsent⟩ := (Option.any_eq_true _ _).mp hrun
  obtain ⟨hsent, hroom⟩ := of_decide_eq_true hsent
  exact ⟨s, hs, confined .plain plainToken .plain _ _ hs hsent rfl (fun _ _ _ => rfl)
    ⟨RoomNames.mem_inNamed_workspace.mpr hroom, by decide⟩⟩

end AideepWebsocket.Gateway
