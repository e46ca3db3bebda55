import AideepWebsocket.Gateway.Suspended
import AideepWebsocket.Gateway.Wire

/-!
# What the handlers of WsGateway do

Each handler is a program with several ends, and so is the code behind each of its awaits.
For those that branch there is one lemma here that lists the ends, with what has been found
on the way to them and the state that is left.  The proofs about a step begin with it and
do not unfold the handler: a change to one handler is a change to one lemma of this module,
and to the proofs that read the clause that has changed.
-/

namespace AideepWebsocket.Gateway

open Library
open DocManager (Reply)

/-! ### What a handler awaits -/

/-- The handler awaits a reply of Redis. -/
def Pending.awaitsRedis : Pending → Bool
  | .joinCheckWorkspace _ _ | .yjsCheckWorkspace _ _ _ | .yjsGetOrCreateDoc _ _ _ _ => false
  | _ => true

/-- Where a handler awaits Redis again, once its command has been answered. -/
def Pending.next : Pending → Option Pending
  | .joinGetCachedAwareness workspaceId member => some (.joinUpsertPresence workspaceId member)
  | .joinUpsertPresence workspaceId _ => some (.joinExpirePresence workspaceId)
  | .joinExpirePresence workspaceId => some (.joinListPresence workspaceId)
  | .leaveRemovePresence workspaceId _ => some (.leaveListPresence workspaceId)
  | _ => none

namespace State

variable (s : State) {s' : State} {out : List Output}

/-! ### Messages -/

/-- The presence of a socket that has joined a workspace is removed first; otherwise its
documents are left at once. -/
theorem handleDisconnect_cases (socket : SocketId) :
    let t : State := { s with
      connected := s.connected.erase socket
      rooms := fun room => (s.rooms room).erase socket }
    (∃ workspaceId userId, (s.data socket).workspaceId = some workspaceId ∧
        (s.data socket).userId = some userId ∧
        s.handleDisconnect socket =
          (t.suspend socket (.leaveRemovePresence workspaceId userId)).issue s.nextHandler) ∨
      (∀ workspaceId userId, (s.data socket).workspaceId = some workspaceId →
          (s.data socket).userId ≠ some userId) ∧
        s.handleDisconnect socket = t.cleanupYjs socket ∧
        ∃ manager yjsRooms,
          t.cleanupYjs socket = { t with manager := manager, yjsRooms := yjsRooms } := by
  unfold handleDisconnect
  dsimp only
  split
  · next workspaceId userId hws huser =>
      exact Or.inl ⟨workspaceId, userId, hws, huser, rfl⟩
  · next hnone => exact Or.inr ⟨hnone, rfl, cleanupYjs_eq _ socket⟩

/-- `yjs:join` is refused, asks for the membership, or has it cached and asks for the
document. -/
theorem handleYjsJoin_cases (socket : SocketId) (nodeId : NodeId) :
    (∃ text, s.handleYjsJoin socket nodeId = (s, [.ack socket (.error text)])) ∨
      ∃ userId workspaceId, (s.data socket).userId = some userId ∧
        (s.data socket).workspaceId = some workspaceId ∧
        (((s.data socket).membershipCache workspaceId = none ∧
            s.handleYjsJoin socket nodeId =
              (s.suspend socket (.yjsCheckWorkspace userId workspaceId nodeId), [])) ∨
          ∃ role, (s.data socket).membershipCache workspaceId = some (some role) ∧
            s.handleYjsJoin socket nodeId =
              s.loadYjsDoc socket workspaceId nodeId (some role)) := by
  unfold handleYjsJoin
  cases huser : (s.data socket).userId with
  | none => exact Or.inl ⟨_, rfl⟩
  | some userId =>
      cases hws : (s.data socket).workspaceId with
      | none => exact Or.inl ⟨_, rfl⟩
      | some workspaceId =>
          cases hcache : (s.data socket).membershipCache workspaceId with
          | none =>
              refine Or.inr ⟨userId, workspaceId, rfl, rfl, Or.inl ⟨hcache, ?_⟩⟩
              simp only [hcache]
          | some membership =>
              cases membership with
              | none =>
                  refine Or.inl ⟨"워크스페이스 멤버가 아닙니다", ?_⟩
                  simp only [hcache]
                  rfl
              | some role =>
                  refine Or.inr ⟨userId, workspaceId, rfl, rfl, Or.inr ⟨role, hcache, ?_⟩⟩
                  simp only [hcache]

/-! ### Replies -/

/-- A membership query is answered.  `join_workspace` ends, or enters its rooms; `yjs:join`
ends, or remembers the answer, and then asks for the document or ends. -/
theorem membershipReply_cases {h : HandlerId} {ok : Bool}
    (hs' : s.membershipReply h ok = some (s', out)) :
    (∃ socket workspaceId member,
      s.handlers h = some ⟨socket, .joinCheckWorkspace workspaceId member⟩ ∧
      (((ok = true → s.memberships member.userId workspaceId = none) ∧ s' = s.finish h ∧
          (out = [] ∨ ∃ text, out = [.ack socket (.error text)])) ∨
        ∃ role, ok = true ∧ s.memberships member.userId workspaceId = some role ∧ out = [] ∧
          s' = (State.continueJoin
            { s with passed := s.passed ++ [(member.userId, workspaceId, role)] }
            h socket workspaceId member (some role)).1)) ∨
    ∃ socket userId workspaceId nodeId,
      s.handlers h = some ⟨socket, .yjsCheckWorkspace userId workspaceId nodeId⟩ ∧
      ((ok = false ∧ s' = s.finish h ∧ out = []) ∨
        let t (membership : Option Role) : State := (s.finish h).setData socket fun d =>
          { d with
            membershipCache := Function.update d.membershipCache workspaceId (some membership) }
        (ok = true ∧ s.memberships userId workspaceId = none ∧ s' = t none ∧
            ∃ text, out = [.ack socket (.error text)]) ∨
          ∃ role, ok = true ∧ s.memberships userId workspaceId = some role ∧ out = [] ∧
            s' = (State.loadYjsDoc
              { t (some role) with passed := s.passed ++ [(userId, workspaceId, role)] }
              socket workspaceId nodeId (some role)).1) := by
  unfold membershipReply at hs'
  dsimp only at hs'
  split at hs'
  · next socket workspaceId member hhandler =>
      refine Or.inl ⟨socket, workspaceId, member, hhandler, ?_⟩
      cases ok with
      | false =>
          cases hs'
          exact Or.inl ⟨fun hok => (by cases hok), rfl, Or.inl rfl⟩
      | true =>
          cases hmembership : s.memberships member.userId workspaceId with
          | none =>
              rw [hmembership] at hs'
              cases hs'
              exact Or.inl ⟨fun _ => rfl, by simp [finish], Or.inr ⟨_, rfl⟩⟩
          | some role =>
              rw [hmembership] at hs'
              cases hs'
              exact Or.inr ⟨role, rfl, rfl, rfl, rfl⟩
  · next socket userId workspaceId nodeId hhandler =>
      refine Or.inr ⟨socket, userId, workspaceId, nodeId, hhandler, ?_⟩
      cases ok with
      | false =>
          cases hs'
          exact Or.inl ⟨rfl, rfl, rfl⟩
      | true =>
          refine Or.inr ?_
          cases hmembership : s.memberships userId workspaceId with
          | none =>
              rw [hmembership] at hs'
              cases hs'
              exact Or.inl ⟨rfl, rfl, by simp [finish, setData], _, rfl⟩
          | some role =>
              rw [hmembership] at hs'
              cases hs'
              exact Or.inr ⟨role, rfl, rfl, rfl, rfl⟩
  · cases hs'

/-- `getOrCreateDoc` has rejected, and `yjs:join` ends; or the document is there. -/
theorem resumeYjsJoin_cases {h : HandlerId} (hs' : s.resumeYjsJoin h = some (s', out)) :
    ∃ socket workspaceId role nodeId get c,
      s.handlers h = some ⟨socket, .yjsGetOrCreateDoc workspaceId role nodeId get⟩ ∧
      s.manager.loader.gets get = some c ∧
      let t : State := { s with
        manager := (s.manager.finishAwait c.nodeId c.await).removeGet get }.finish h
      ((∃ failure, s.manager.awaited c.await = some (.error failure) ∧ s' = t ∧ out = []) ∨
        ∃ r, s.manager.awaited c.await = some (.ok r) ∧
          t.finishYjsJoin socket nodeId (role = .VIEWER) (s.manager.mem.heap r).doc =
            (s', out)) := by
  unfold resumeYjsJoin at hs'
  split at hs'
  · next socket workspaceId role nodeId get hhandler =>
      split at hs'
      · cases hs'
      · next c hget =>
          refine ⟨socket, workspaceId, role, nodeId, get, c, hhandler, hget, ?_⟩
          dsimp only at hs'
          split at hs'
          · cases hs'
          · next failure hawaited =>
              cases hs'
              exact Or.inl ⟨failure, hawaited, rfl, rfl⟩
          · next r hawaited => exact Or.inr ⟨r, hawaited, Option.some.inj hs'⟩
  · cases hs'

/-- The oldest command is answered.  Its handler goes on to the next, ends, or leaves the
documents of its socket and ends; or nobody awaits the answer any more. -/
theorem redisReply_cases {reply : Reply} (hs' : s.redisReply reply = some (s', out)) :
    ∃ h rest, s.commands = h :: rest ∧
      ((s' = { s with commands := rest } ∧ out = []) ∨
        ∃ socket pending, s.handlers h = some ⟨socket, pending⟩ ∧ pending.awaitsRedis = true ∧
          let executed : State := if reply.executed then s.executeCommand pending else s
          let t : State := { s with
            commands := rest, presence := executed.presence, awareness := executed.awareness }
          ((∃ next, pending.next = some next ∧ s' = (t.resuspend h socket next).issue h) ∨
            (reply = .ok ∧ (∃ workspaceId, pending = .leaveListPresence workspaceId) ∧
              s' = (t.finish h).cleanupYjs socket ∧
              ∃ manager yjsRooms, (t.finish h).cleanupYjs socket =
                { t.finish h with manager := manager, yjsRooms := yjsRooms }) ∨
            ((reply = .ok → pending.next = none ∧
                ∀ workspaceId, pending ≠ .leaveListPresence workspaceId) ∧
              s' = t.finish h))) := by
  cases hcommands : s.commands with
  | nil => simp [redisReply, hcommands] at hs'
  | cons h rest =>
      refine ⟨h, rest, rfl, ?_⟩
      cases hx : s.handlers h with
      | none =>
          simp only [redisReply, hcommands, hx] at hs'
          cases hs'
          exact Or.inl ⟨rfl, rfl⟩
      | some x =>
          obtain ⟨socket, pending⟩ := x
          rw [redisReply_of_command reply hcommands hx] at hs'
          by_cases hawaits : pending.awaitsRedis = true
          · -- Redis changes nothing but what it holds
            have hstore (t : State)
                (ht : t = if reply.executed then s.executeCommand pending else s) :
                ({ t with commands := rest } : State) = { s with
                  commands := rest, presence := t.presence, awareness := t.awareness } := by
              subst ht
              split
              · obtain ⟨_, _, heq⟩ := executeCommand_eq s pending
                rw [heq]
              · rfl
            rw [hstore _ rfl] at hs'
            refine Or.inr ⟨socket, pending, rfl, hawaits, ?_⟩
            generalize (if reply.executed then s.executeCommand pending else s) = executed at hs' ⊢
            dsimp only
            cases pending with
            | joinGetCachedAwareness =>
                cases hs'
                exact Or.inl ⟨_, rfl, rfl⟩
            | joinUpsertPresence | joinExpirePresence | leaveRemovePresence =>
                cases reply <;> cases hs'
                · exact Or.inl ⟨_, rfl, rfl⟩
                · exact Or.inr (Or.inr ⟨fun hok => (by cases hok), rfl⟩)
                · exact Or.inr (Or.inr ⟨fun hok => (by cases hok), rfl⟩)
            | leaveListPresence workspaceId =>
                cases reply <;> cases hs'
                · exact Or.inr (Or.inl ⟨rfl, ⟨workspaceId, rfl⟩, rfl, cleanupYjs_eq _ socket⟩)
                · exact Or.inr (Or.inr ⟨fun hok => (by cases hok), rfl⟩)
                · exact Or.inr (Or.inr ⟨fun hok => (by cases hok), rfl⟩)
            | joinListPresence | cacheAwareness =>
                cases reply <;> cases hs' <;>
                  exact Or.inr (Or.inr ⟨fun _ => ⟨rfl, fun _ heq => (by cases heq)⟩, rfl⟩)
            | _ => cases hawaits
          · refine Or.inl ?_
            cases pending with
            | joinCheckWorkspace | yjsCheckWorkspace | yjsGetOrCreateDoc =>
                cases reply <;> cases hs' <;> exact ⟨rfl, rfl⟩
            | _ => exact absurd rfl hawaits

end State

end AideepWebsocket.Gateway
