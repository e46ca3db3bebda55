import AideepWebsocket.App.Announcements
import AideepWebsocket.Http.Server

/-!
# The call that a request awaits

The controller makes one call of `executeContentOperation` for a request and awaits it.
Until the call returns, everything else that the server does comes in between; the call is
neither lost in this nor mistaken for another one.

* `Makes` — the call that the controller makes for a request;
* `Process.kept_of_handle`, `kept_of_move` — **no call is forgotten** while the process lives;
* `Inv` — who is executing awaits a call of its own, and who is not has got its token verified
  and its body read.
-/

namespace AideepWebsocket

open Library
open DocManager (NodeRow Reply)
open Gateway (Role)
open Gateway.JwtStrategy (isMaster)
open NodeContent (CallId Kept NodeContentOperationBody)
open Redis (Format)

/-! ### The calls of the process -/

namespace App

variable {lex : Lexical} {verify : String → Option UserId}
  {hash : NodeContentOperationBody → String} {s s' : State} {e : Event}

theorem kept_of_step (h : step lex verify hash s e = some s') (he : e ≠ .restart) :
    Kept s.service s'.service := by
  cases appStep_of_step h with
  | gateway e' gateway _ _ _ _ hs' =>
      subst hs'
      exact .of_eq rfl rfl
  | membership userId workspaceId role _ hs' =>
      subst hs'
      exact .of_eq rfl rfl
  | service e' x _ hdriven hstep hs' =>
      subst hs'
      exact .of_moved (moved_of_service hdriven hstep).1
  | resumed t operationId broadcasts x _ hresume hs' =>
      obtain ⟨i, entry, result, -, -, -, -, hreply, -⟩ := resume_cases hresume
      have hstep : NodeContent.step hash s.server.service (.appendReply i
          (NodeContent.Server.appended entry.payload result operationId broadcasts)) =
          some x.service := hreply
      have hx : Kept s.service x.service := NodeContent.kept_of_step hstep
      rcases hs' with ⟨-, -, hs'⟩ | ⟨rfl, -⟩
      · rw [hs']
        exact hx
      · exact hx
  | restart he' => exact absurd he' he

end App

namespace Redis.Process

variable {F : Format} {lex : Lexical} {hash : NodeContentOperationBody → String}
  {verify : String → Option UserId} {s s' : State} {e : Event} {out : List Gateway.Output}

private theorem service_of_gatewayReply {reply : DocManager.Reply}
    (h : gatewayReply F s reply = some (s', out)) : s'.app.service = s.app.service := by
  unfold gatewayReply at h
  split at h
  · cases h
  · dsimp only at h
    split at h
    · cases h
      rfl
    · split at h <;> cases h <;> rfl

private theorem service_of_managerReply {reply : DocManager.Reply}
    (h : managerReply F s reply = some s') : s'.app.service = s.app.service := by
  unfold managerReply at h
  split at h
  · cases h
  · dsimp only at h
    split at h
    · split at h <;> cases h <;> rfl
    · cases h
      rfl
    · cases h
      rfl

private theorem kept_of_callReply {i : NodeContent.CallId} {reply : DocManager.Reply}
    (h : callReply F hash s i reply = some s') : Kept s.app.service s'.app.service := by
  unfold callReply at h
  split at h
  · cases h
  · next call hcall =>
      split at h
      · cases h
      · split at h
        · cases h
          show Kept s.app.service (NodeContent.Server.appendMarkdown _ i).service
          rw [NodeContent.Server.appendMarkdown_service]
          exact .of_update hcall rfl rfl
        · cases h

/-- **No call is forgotten** while the process lives. -/
theorem kept_of_handle (h : handle F lex hash verify s e = some (s', out))
    (he : e ≠ .app .restart) : Kept s.app.service s'.app.service := by
  cases e with
  | app e =>
      simp only [handle] at h
      split at h
      · cases h
      · obtain ⟨⟨app, sent⟩, happ, heq⟩ := Option.map_eq_some_iff.mp h
        cases heq
        have hstep : App.step lex verify hash s.app e = some app := by
          rw [App.step, happ]
          rfl
        exact App.kept_of_step hstep fun heq => he (congrArg Event.app heq)
  | gatewayReply reply =>
      have hsame := service_of_gatewayReply h
      exact .of_eq (by rw [hsame]) (by rw [hsame])
  | managerReply reply =>
      obtain ⟨x, hx, heq⟩ := Option.map_eq_some_iff.mp h
      cases heq
      have hsame := service_of_managerReply hx
      exact .of_eq (by rw [hsame]) (by rw [hsame])
  | callReply i reply =>
      obtain ⟨x, hx, heq⟩ := Option.map_eq_some_iff.mp h
      cases heq
      exact kept_of_callReply hx
  | enqueued t reply =>
      obtain ⟨x, hx, heq⟩ := Option.map_eq_some_iff.mp h
      cases heq
      unfold enqueued at hx
      split at hx <;> cases hx
      exact .of_eq rfl rfl
  | attachmentsSynced save reply =>
      obtain ⟨x, hx, heq⟩ := Option.map_eq_some_iff.mp h
      cases heq
      unfold attachmentsSynced at hx
      split at hx <;> cases hx
      exact .of_eq rfl rfl
  | other key command =>
      simp only [handle] at h
      split at h <;> cases h
      exact .of_eq rfl rfl
  | takeJob =>
      obtain ⟨x, hx, heq⟩ := Option.map_eq_some_iff.mp h
      cases heq
      unfold takeJob at hx
      split at hx <;> cases hx
      exact .of_eq rfl rfl
  | lapse key =>
      obtain ⟨store, -, heq⟩ := Option.map_eq_some_iff.mp h
      cases heq
      exact .of_eq rfl rfl

end Redis.Process

/-! ### The calls of the requests -/

namespace Http

/-- The payload that is handed on while the guard is at work. -/
def Phase.payload : Phase → Option Json
  | .blacklist payload | .masterToken payload | .admitted payload => some payload
  | .executing _ => none

/-- The call that a request awaits. -/
def Phase.call : Phase → Option CallId
  | .executing i => some i
  | _ => none

namespace Server

variable {F : Format} {N : Framework} {verify : String → Except String Json} {lex : Lexical}
  {hash : NodeContentOperationBody → String} {s s' : State} {e : Event}

variable (F N verify) in
/-- The call that the controller makes for a request: for the user of its token, on what its
path, its header and its body say. -/
def Makes (r : Request) (request : NodeContent.Request) : Prop :=
  ∃ payload userId body, authenticate verify r.credentials = some payload ∧
    userOf F payload = some userId ∧ Accepted F N.length r.body body ∧
    NodeContent.executeContentOperation userId r.workspaceId r.nodeId r.idempotencyKey body =
      .ok request

/-- Nothing but the end of the process makes the server forget a call. -/
theorem kept_of_move {server : Redis.Process.State} {f : EventBus.Server.Event}
    {sent : List Gateway.Output} (h : move F verify lex hash s f = some (server, sent))
    (hf : ends f = false) : Kept s.server.app.service server.app.service := by
  have hprocess {f' : App.Event}
      (h : Redis.Process.handle F lex hash (identified F verify) s.server (.app f') =
        some (server, sent)) (hf' : f' ≠ .restart) :
      Kept s.server.app.service server.app.service :=
    Redis.Process.kept_of_handle h fun heq => hf' (Redis.Process.Event.app.inj heq)
  unfold move EventBus.Server.handle at h
  split at h
  · next text =>
      unfold EventBus.Server.dispatch at h
      split at h
      · exact hprocess h (by simp)
      · exact hprocess h (by simp)
      · exact hprocess h (by simp)
      · cases h
        exact .of_eq rfl rfl
      · cases h
        exact .of_eq rfl rfl
      · cases h
  · next f' =>
      split at h
      · cases h
      · refine Redis.Process.kept_of_handle h fun heq => ?_
        subst heq
        cases hf

/-- The process, once the call has begun. -/
def begun (server : Redis.Process.State) (request : NodeContent.Request) : Redis.Process.State :=
  let service := { server.app.service with nodes := server.app.gateway.manager.nodes }
  let x := { server.app.server with service := service.start request .checkWorkspace }
  { server with app := server.app.setServer x }

/-- The controller calls the service. -/
theorem move_execute {userId : UserId} {workspaceId : WorkspaceId} {nodeId : NodeId}
    {idempotencyKey : Option String} {body : NodeContentOperationBody}
    {request : NodeContent.Request}
    (h : NodeContent.executeContentOperation userId workspaceId nodeId idempotencyKey body =
      .ok request) :
    move F verify lex hash s (.process (.app (.service (.execute userId workspaceId nodeId
      idempotencyKey body)))) = some (begun s.server request, []) := by
  have hstep : NodeContent.step hash
      { s.server.app.service with nodes := s.server.app.gateway.manager.nodes }
      (.execute userId workspaceId nodeId idempotencyKey body) =
      some (NodeContent.State.start
        { s.server.app.service with nodes := s.server.app.gateway.manager.nodes } request
        .checkWorkspace) := by
    simp only [NodeContent.step, h]
  have hmove : move F verify lex hash s (.process (.app (.service (.execute userId workspaceId
      nodeId idempotencyKey body)))) =
      (((NodeContent.step hash
        { s.server.app.service with nodes := s.server.app.gateway.manager.nodes }
        (.execute userId workspaceId nodeId idempotencyKey body)).map fun service =>
          { s.server.app.server with service := service }).map fun x =>
            (s.server.app.setServer x, ([] : List Gateway.Output))).map fun p =>
              ({ s.server with app := p.1 }, p.2) := rfl
  rw [hmove, hstep]
  rfl

/-- What the controller calls has passed all checks. -/
theorem operation_eq_ok {p : Pending} {f : App.Event} (h : operation F N p = some (.ok f)) :
    ∃ payload userId body request, p.phase = .admitted payload ∧
      violations N.length p.body = [] ∧ readBody p.body = some body ∧
      userOf F payload = some userId ∧
      NodeContent.executeContentOperation userId p.request.workspaceId p.request.nodeId
        p.request.idempotencyKey body = .ok request ∧
      f = .service (.execute userId p.request.workspaceId p.request.nodeId
        p.request.idempotencyKey body) := by
  unfold operation at h
  split at h
  · next payload hphase =>
      split at h
      · next hviolations =>
          split at h
          · next body userId hread huser =>
              split at h
              · cases h
              · next request hrequest =>
                  cases h
                  exact ⟨payload, userId, body, request, hphase, hviolations, hread, huser, hrequest,
                    rfl⟩
          · cases h
      · cases h
  · cases h

/-- The guard hands the payload on. -/
theorem payload_of_afterCommand {p : Pending} {command : Library.Redis.Command}
    {answer : Option Library.Redis.Answer} {phase : Phase}
    (hcommand : guardCommand F p = some command) (h : afterCommand N p answer = .ok phase) :
    phase.payload = p.phase.payload ∧ phase.call = none := by
  unfold guardCommand at hcommand
  unfold afterCommand at h
  split at hcommand
  · next payload hphase =>
      rw [hphase] at h ⊢
      dsimp only at h
      unfold afterBlacklist at h
      have hnext : (if isMaster payload then Phase.masterToken payload else .admitted payload).payload =
          some payload ∧
          (if isMaster payload then Phase.masterToken payload else .admitted payload).call = none := by
        split <;> exact ⟨rfl, rfl⟩
      split at h
      · cases h
      · cases h
      · split at h <;> cases h
        exact hnext
      · cases h
        exact hnext
  · next payload hphase =>
      rw [hphase] at h ⊢
      dsimp only at h
      unfold afterMasterToken at h
      split at h
      · cases h
      · cases h
      · split at h <;> cases h
        exact ⟨rfl, rfl⟩
      · cases h
  · cases hcommand
  · cases hcommand

/-! ### Whose call it is -/

variable (F N verify) in
/-- What is known of a pending request: its token has been verified and its body read, and its
call is there. -/
structure Attended (server : Redis.Process.State) (p : Pending) : Prop where
  guarded : ∀ payload, p.phase.payload = some payload →
    authenticate verify p.request.credentials = some payload ∧
      parseBody F.numeral p.request.body = .ok p.body ∧ expressible F N verify p.request = true
  call_lt : ∀ i, p.phase.call = some i → i < server.app.service.nextCall
  call : ∀ i, p.phase.call = some i →
    ∃ call, server.app.service.calls i = some call ∧ Makes F N verify p.request call.request

variable (F N verify) in
/-- **Who is executing awaits a call of its own**, and no one else awaits it. -/
structure Inv (s : State) : Prop where
  lt : ∀ id p, s.pending id = some p → id < s.next
  attended : ∀ id p, s.pending id = some p → Attended F N verify s.server p
  once : ∀ id id' p p' i, s.pending id = some p → s.pending id' = some p' →
    p.phase.call = some i → p'.phase.call = some i → id = id'

namespace Attended

variable {server server' : Redis.Process.State} {p : Pending}

/-- While the process lives, a request is attended to. -/
theorem kept (h : Attended F N verify server p)
    (hkept : Kept server.app.service server'.app.service) : Attended F N verify server' p where
  guarded := h.guarded
  call_lt i hi := (h.call_lt i hi).trans_le hkept.nextCall_le
  call i hi := by
    obtain ⟨call, hcall, hmakes⟩ := h.call i hi
    obtain ⟨call', hcall', hrequest⟩ := hkept.request i call hcall (h.call_lt i hi)
    exact ⟨call', hcall', hrequest ▸ hmakes⟩

/-- The controller calls for what has been let in. -/
theorem makes (h : Attended F N verify server p) {payload : Json} {userId : UserId}
    {body : NodeContentOperationBody} {request : NodeContent.Request}
    (hphase : p.phase = .admitted payload) (hviolations : violations N.length p.body = [])
    (hread : readBody p.body = some body) (huser : userOf F payload = some userId)
    (hrequest : NodeContent.executeContentOperation userId p.request.workspaceId p.request.nodeId
      p.request.idempotencyKey body = .ok request) : Makes F N verify p.request request := by
  obtain ⟨hauthenticate, hparse, -⟩ := h.guarded payload (by rw [hphase]; rfl)
  exact ⟨payload, userId, body, hauthenticate, huser, ⟨p.body, hparse, hviolations, hread⟩, hrequest⟩

end Attended

namespace Inv

theorem init (nodes : NodeId → Option NodeRow)
    (memberships : UserId → WorkspaceId → Option Role) :
    Inv F N verify (.init nodes memberships) :=
  ⟨fun _ _ h => (by cases h), fun _ _ h => (by cases h), fun _ _ _ _ _ h => (by cases h)⟩

/-- No request is pending that has not arrived. -/
theorem pending_next (hI : Inv F N verify s) : s.pending s.next = none :=
  Option.eq_none_iff_forall_ne_some.mpr fun p hp => lt_irrefl _ (hI.lt s.next p hp)

/-- The rest of the server moves. -/
theorem kept (hI : Inv F N verify s) {server : Redis.Process.State}
    (hkept : Kept s.server.app.service server.app.service) :
    Inv F N verify { s with server := server } where
  lt := hI.lt
  attended id p hp := (hI.attended id p hp).kept hkept
  once := hI.once

/-- A request arrives, goes on or is answered. -/
theorem set (hI : Inv F N verify s) {id n : RequestId} {p' : Option Pending} (hn : s.next ≤ n)
    (hid : id < n) (hp' : ∀ p, p' = some p → Attended F N verify s.server p)
    (hfree : ∀ p i, p' = some p → p.phase.call = some i → ∀ id' p'', id' ≠ id →
      s.pending id' = some p'' → p''.phase.call ≠ some i) :
    Inv F N verify ({ s with next := n }.setPending id p') := by
  -- who is pending is this one, or was pending before
  have hcases : ∀ id' p, ({ s with next := n }.setPending id p').pending id' = some p →
      id' = id ∧ p' = some p ∨ id' ≠ id ∧ s.pending id' = some p := by
    intro id' p hp
    by_cases h : id' = id
    · subst h
      rw [State.setPending_self] at hp
      exact Or.inl ⟨rfl, hp⟩
    · rw [State.setPending_of_ne _ _ h] at hp
      exact Or.inr ⟨h, hp⟩
  refine ⟨fun id' p hp => ?_, fun id' p hp => ?_, fun id₁ id₂ p₁ p₂ i hp₁ hp₂ hi₁ hi₂ => ?_⟩
  · rcases hcases id' p hp with ⟨rfl, -⟩ | ⟨-, hold⟩
    · exact hid
    · exact (hI.lt id' p hold).trans_le hn
  · rcases hcases id' p hp with ⟨rfl, hnew⟩ | ⟨-, hold⟩
    · exact hp' p hnew
    · exact hI.attended id' p hold
  · rcases hcases id₁ p₁ hp₁ with ⟨rfl, hnew₁⟩ | ⟨hne₁, hold₁⟩ <;>
      rcases hcases id₂ p₂ hp₂ with ⟨rfl, hnew₂⟩ | ⟨hne₂, hold₂⟩
    · rfl
    · exact absurd hi₂ (hfree p₁ i hnew₁ hi₁ id₂ p₂ hne₂ hold₂)
    · exact absurd hi₁ (hfree p₂ i hnew₂ hi₂ id₁ p₁ hne₁ hold₁)
    · exact hI.once id₁ id₂ p₁ p₂ i hold₁ hold₂ hi₁ hi₂

/-- A request is answered. -/
theorem answered (hI : Inv F N verify s) {id n : RequestId} (hn : s.next ≤ n) (hid : id < n) :
    Inv F N verify ({ s with next := n }.setPending id none) :=
  hI.set hn hid (fun _ h => (by cases h)) fun _ _ h => (by cases h)

/-- The controller has called. -/
theorem executed (hI : Inv F N verify s) {id : RequestId} {p : Pending} {f : App.Event}
    {server : Redis.Process.State} {sent : List Gateway.Output} (hp : s.pending id = some p)
    (hf : operation F N p = some (.ok f))
    (hserver : move F verify lex hash s (.process (.app f)) = some (server, sent)) :
    Inv F N verify ({ s with server := server }.setPending id
      (some { p with phase := .executing s.server.app.service.nextCall })) := by
  obtain ⟨payload, userId, body, request, hphase, hviolations, hread, huser, hrequest, rfl⟩ :=
    operation_eq_ok hf
  have hmakes := (hI.attended id p hp).makes hphase hviolations hread huser hrequest
  have hkept := kept_of_move hserver rfl
  rw [move_execute hrequest] at hserver
  cases hserver
  refine (hI.kept hkept).set le_rfl (hI.lt id p hp) ?_ ?_
  · rintro p' hp'
    cases hp'
    refine ⟨fun payload h => (by cases h), fun i hi => ?_, fun i hi => ?_⟩
    · obtain rfl := Option.some.inj hi
      exact Nat.lt_succ_self _
    · obtain rfl := Option.some.inj hi
      exact ⟨⟨request, .checkWorkspace⟩, Function.update_self .., hmakes⟩
  · rintro p' i hp' hi id' p'' - hpending hi'
    cases hp'
    obtain rfl := Option.some.inj hi
    exact lt_irrefl _ ((hI.attended id' p'' hpending).call_lt _ hi')

/-- **One step**: who arrives is attended to, and goes on being so until it is answered. -/
theorem step (hI : Inv F N verify s) (h : step F N verify lex hash s e = some s') :
    Inv F N verify s' := by
  rw [step_eq_some] at h
  cases handle_cases h with
  | rejected r exception he hs' hout =>
      subst hs'
      exact hI.answered (Nat.le_succ _) (Nat.lt_succ_self _)
  | arrived r body payload he hexpressible hbody hpayload hs' hout =>
      subst hs'
      refine hI.set (Nat.le_succ _) (Nat.lt_succ_self _) ?_ ?_
      · rintro p hp
        cases hp
        refine ⟨fun payload' h => ?_, fun i hi => (by cases hi), fun i hi => (by cases hi)⟩
        obtain rfl := Option.some.inj h
        exact ⟨hpayload, hbody, hexpressible⟩
      · rintro p i hp hi
        cases hp
        cases hi
  | refused id p exception he hp hs' hout =>
      subst hs'
      exact hI.answered le_rfl (hI.lt id p hp)
  | responded id p i call result he hp hphase hcall hresult hs' hout =>
      subst hs'
      exact hI.answered le_rfl (hI.lt id p hp)
  | guarded id reply p command phase he hp hcommand hphase hs' hout =>
      obtain ⟨hpayload, hcall⟩ := payload_of_afterCommand hcommand hphase
      have hnone {i : CallId} : phase.call ≠ some i := by
        rw [hcall]
        exact Option.some_ne_none i |>.symm
      subst hs'
      refine hI.set le_rfl (hI.lt id p hp) ?_ ?_
      · rintro p' hp'
        cases hp'
        refine ⟨fun payload h => (hI.attended id p hp).guarded payload (hpayload ▸ h),
          fun i hi => absurd hi hnone, fun i hi => absurd hi hnone⟩
      · rintro p' i hp' hi
        cases hp'
        exact absurd hi hnone
  | executed id p f server sent he hp hf hserver hs' hout =>
      subst hs'
      exact hI.executed hp hf hserver
  | moved f server sent he hf hserver hs' hout =>
      subst hs'
      cases hends : ends f with
      | true =>
          exact ⟨fun _ _ h => (by cases h), fun _ _ h => (by cases h),
            fun _ _ _ _ _ h => (by cases h)⟩
      | false => exact hI.kept (kept_of_move hserver hends)

end Inv

/-- **In every run, who is executing awaits a call of its own.** -/
theorem inv_of_exec {nodes : NodeId → Option NodeRow}
    {memberships : UserId → WorkspaceId → Option Role} {es : List Event}
    (hes : exec (step F N verify lex hash) (.init nodes memberships) es = some s) :
    Inv F N verify s :=
  Reachable.invariant ⟨es, hes⟩ (Inv.init nodes memberships) fun _ _ _ h hI => hI.step h

end Server

end Http

end AideepWebsocket
