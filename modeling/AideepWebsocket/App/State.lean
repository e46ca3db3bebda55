import AideepWebsocket.Gateway.Refinement
import AideepWebsocket.Library.Simulation
import AideepWebsocket.NodeContent.OptimisticLock

/-!
# AppModule

`WsGateway` and `NodeContentService` run in one process, over one `YjsDocManager`.  The
models of the two each contain a manager of their own and leave the rest of the process to
an event of the world.  Here they share it, and what was an event of the world for one is a
step of the other.

* `App.State` — the gateway with its manager, the calls of the service, and which call
  awaits which append;
* `App.handle` — one step, with what it sends.  The call whose append has settled resumes,
  and broadcasts the update in the same turn;
* `toGateway`, `toServer` — **the process is both**: each of its runs is a run of the
  gateway that sends the same, and a run of the service over the manager.

So whatever is proved of either in every reachable state holds in the process.
-/

namespace AideepWebsocket.App

open Library
open DocManager (NodeRow TaskId)
open Gateway (Output Role)
open NodeContent (CallId NodeContentOperationBody Server)

structure State where
  gateway : Gateway.State
  service : NodeContent.State
  appends : TaskId → Option CallId

inductive Event
  | gateway (e : Gateway.Event)
  | service (e : NodeContent.Event)
  /-- The call that awaits the append resumes; `broadcasts` says whether
  `broadcastYjsUpdate` returns. -/
  | resume (t : TaskId) (operationId : ℕ) (broadcasts : Bool)
  | restart
  deriving DecidableEq

namespace State

def init (nodes : NodeId → Option NodeRow) (memberships : UserId → WorkspaceId → Option Role) :
    State where
  gateway := .init nodes memberships
  service := .init nodes memberships
  appends _ := none

/-- The service with the manager. -/
def server (s : State) : Server := ⟨s.gateway.manager, s.service, s.appends⟩

def setServer (s : State) (x : Server) : State where
  gateway := { s.gateway with manager := x.manager }
  service := x.service
  appends := x.appends

/-- A row of `users_workspaces` changes, for both that read it.  The service takes the
`nodes` table along, as in every step of its own. -/
def setMembership (s : State) (userId : UserId) (workspaceId : WorkspaceId)
    (role : Option Role) : State :=
  let f (memberships : UserId → WorkspaceId → Option Role) :=
    Function.update memberships userId (Function.update (memberships userId) workspaceId role)
  { s with
    gateway := { s.gateway with memberships := f s.gateway.memberships }
    service := { s.service with
      nodes := s.gateway.manager.nodes
      memberships := f s.service.memberships } }

/-- The call resumes, and broadcasts the update if there is one. -/
def resume (lex : Lexical) (s : State) (t : TaskId) (operationId : ℕ) (broadcasts : Bool) :
    Option (State × List Output) :=
  (s.server.resume lex t operationId broadcasts).map fun x =>
    let s := s.setServer x
    match if broadcasts then s.gateway.announce t else none with
    | some (gateway, out) => ({ s with gateway := gateway }, out)
    | none => (s, [])

/-- The process ends: its sockets, its documents and its calls go with it. -/
def restart (s : State) : State where
  gateway := s.gateway.restart
  service := s.server.restart.service
  appends := s.server.restart.appends

end State

/-- The events of the gateway that the process causes itself. -/
def driven (s : State) : Gateway.Event → Bool
  | .manager (.appendMarkdown ..) | .announce _ | .restart => true
  | .manager (.resumeTask t) => (s.appends t).isSome
  | _ => false

/-- The events of the service that the process causes itself, or that concern tables which
it shares with the gateway. -/
def drivenService : NodeContent.Event → Bool
  | .appendReply .. | .writeNode .. | .setMembership .. => true
  | _ => false

variable (lex : Lexical) (verify : String → Option UserId)
  (hash : NodeContentOperationBody → String)

/-- One step of the process, with what it sends. -/
def handle (s : State) : Event → Option (State × List Output)
  | .gateway (.setMembership userId workspaceId role) =>
      some (s.setMembership userId workspaceId role, [])
  | .gateway e =>
      if driven s e then none
      else (Gateway.handle lex verify s.gateway e).map fun (gateway, out) =>
        ({ s with gateway := gateway }, out)
  | .service e =>
      if drivenService e then none
      else (Server.step lex hash s.server (.service e)).map fun x => (s.setServer x, [])
  | .resume t operationId broadcasts => s.resume lex t operationId broadcasts
  | .restart => some (s.restart, [])

def step (s : State) (e : Event) : Option State := (handle lex verify hash s e).map Prod.fst

/-- What a step sends. -/
def outputs (s : State) (e : Event) : List Output :=
  ((handle lex verify hash s e).map Prod.snd).getD []

variable {lex verify hash} {s s' : State} {e : Event}

theorem step_eq_some :
    step lex verify hash s e = some s' ↔
      handle lex verify hash s e = some (s', outputs lex verify hash s e) := by
  unfold step outputs
  cases handle lex verify hash s e with
  | none => simp
  | some p => simp [Prod.ext_iff]

/-! ### What a step is, for either -/

/-- What an event can do. -/
inductive AppStep (lex : Lexical) (verify : String → Option UserId)
    (hash : NodeContentOperationBody → String) (s : State) (e : Event) (s' : State)
    (out : List Output) : Prop
  | gateway (e' : Gateway.Event) (gateway : Gateway.State) (he : e = .gateway e')
      (hdriven : driven s e' = false)
      (hmembership : ∀ userId workspaceId role, e' ≠ .setMembership userId workspaceId role)
      (hstep : Gateway.handle lex verify s.gateway e' = some (gateway, out))
      (hs' : s' = { s with gateway := gateway })
  | membership (userId : UserId) (workspaceId : WorkspaceId) (role : Option Role)
      (he : e = .gateway (.setMembership userId workspaceId role))
      (hs' : s' = s.setMembership userId workspaceId role) (hout : out = [])
  | service (e' : NodeContent.Event) (x : Server) (he : e = .service e')
      (hdriven : drivenService e' = false)
      (hstep : Server.step lex hash s.server (.service e') = some x)
      (hs' : s' = s.setServer x) (hout : out = [])
  | resumed (t : TaskId) (operationId : ℕ) (broadcasts : Bool) (x : Server)
      (he : e = .resume t operationId broadcasts)
      (hresume : s.server.resume lex t operationId broadcasts = some x)
      (hs' : (broadcasts = true ∧
          (s.setServer x).gateway.announce t = some (s'.gateway, out) ∧
          s' = { s.setServer x with gateway := s'.gateway }) ∨
        s' = s.setServer x ∧ out = [] ∧
          (broadcasts = true → (s.setServer x).gateway.announce t = none))
  | restart (he : e = .restart) (hs' : s' = s.restart) (hout : out = [])

private theorem appStep_of_gateway {e' : Gateway.Event} {out : List Output}
    (hmembership : ∀ userId workspaceId role, e' ≠ .setMembership userId workspaceId role)
    (h : (if driven s e' then none
      else (Gateway.handle lex verify s.gateway e').map fun (gateway, out) =>
        ({ s with gateway := gateway }, out)) = some (s', out)) :
    AppStep lex verify hash s (.gateway e') s' out := by
  split at h
  · cases h
  · next hdriven =>
      obtain ⟨⟨gateway, out'⟩, hstep, heq⟩ := Option.map_eq_some_iff.mp h
      cases heq
      exact .gateway e' gateway rfl (Bool.eq_false_iff.mpr hdriven) hmembership hstep rfl

/-- **What a step can do.** -/
theorem appStep_of_step (h : step lex verify hash s e = some s') :
    AppStep lex verify hash s e s' (outputs lex verify hash s e) := by
  rw [step_eq_some] at h
  generalize outputs lex verify hash s e = out at h
  cases e with
  | gateway e' =>
      cases e' with
      | setMembership userId workspaceId role =>
          cases h
          exact .membership userId workspaceId role rfl rfl rfl
      | _ => exact appStep_of_gateway (by simp) h
  | service e' =>
      simp only [handle] at h
      split at h
      · cases h
      · next hdriven =>
          obtain ⟨x, hstep, heq⟩ := Option.map_eq_some_iff.mp h
          cases heq
          exact .service e' x rfl (Bool.eq_false_iff.mpr hdriven) hstep rfl rfl
  | resume t operationId broadcasts =>
      simp only [handle, State.resume] at h
      obtain ⟨x, hresume, heq⟩ := Option.map_eq_some_iff.mp h
      refine .resumed t operationId broadcasts x rfl hresume ?_
      split at heq
      · next gateway out' hannounce =>
          obtain ⟨rfl, rfl⟩ := Prod.mk.inj heq
          split at hannounce
          · next hbroadcasts => exact Or.inl ⟨hbroadcasts, hannounce, rfl⟩
          · cases hannounce
      · next hannounce =>
          obtain ⟨rfl, rfl⟩ := Prod.mk.inj heq
          refine Or.inr ⟨rfl, rfl, fun hbroadcasts => ?_⟩
          rwa [if_pos hbroadcasts] at hannounce
  | restart =>
      cases h
      exact .restart rfl rfl rfl

/-! ### The gateway in the process -/

/-- What the service does to the manager: it may submit an append. -/
private theorem manager_of_service {x : Server} {e' : NodeContent.Event}
    (hdriven : drivenService e' = false)
    (h : Server.step lex hash s.server (.service e') = some x) :
    x.manager = s.gateway.manager ∨ ∃ nodeId workspaceId markdown userId,
      x.manager = s.gateway.manager.runExclusive nodeId
        (.appendMarkdown workspaceId markdown userId) := by
  cases e' with
  | redisReply i reply =>
      obtain ⟨service, -, rfl⟩ := Option.map_eq_some_iff.mp h
      unfold NodeContent.Server.appendMarkdown
      split
      · exact Or.inr ⟨_, _, _, _, rfl⟩
      · exact Or.inl rfl
  | appendReply i result => cases hdriven
  | writeNode nodeId row => cases hdriven
  | setMembership userId workspaceId role => cases hdriven
  | _ =>
      obtain ⟨service, -, rfl⟩ := Option.map_eq_some_iff.mp h
      exact Or.inl rfl

/-- A call resumes when its task does. -/
theorem resume_cases {y x : Server} {t : TaskId} {operationId : ℕ} {broadcasts : Bool}
    (h : y.resume lex t operationId broadcasts = some x) :
    ∃ i entry result, y.appends t = some i ∧ y.manager.queue.task t = some entry ∧
      entry.payload.phase = .settled result ∧
      DocManager.step lex y.manager (.resumeTask t) = some x.manager ∧
      y.service.appendReply i (Server.appended entry.payload result operationId broadcasts) =
        some x.service ∧
      x.appends = Function.update y.appends t none := by
  unfold NodeContent.Server.resume at h
  split at h
  · next i entry hi htask =>
      split at h
      · next result hphase =>
          split at h
          · next manager service hmanager hservice =>
              cases h
              exact ⟨i, entry, result, hi, htask, hphase, hmanager, hservice, rfl⟩
          · cases h
      · cases h
  · cases h

/-- A run of the gateway of one step. -/
private theorem gateway_run {g g' : Gateway.State} {e' : Gateway.Event} {out : List Output}
    (h : Gateway.handle lex verify g e' = some (g', out)) :
    Gateway.step lex verify g e' = some g' ∧ Gateway.outputs lex verify g e' = out := by
  rw [Gateway.step, Gateway.outputs, h]
  exact ⟨rfl, rfl⟩

/-- **The process is a gateway**: what it does to the gateway, the gateway can do, and it
sends nothing else. -/
def toGateway (lex : Lexical) (verify : String → Option UserId)
    (hash : NodeContentOperationBody → String) :
    Simulation (step lex verify hash) (outputs lex verify hash) (Gateway.step lex verify)
      (Gateway.outputs lex verify) where
  rel s g := s.gateway = g
  step := by
    rintro s g e s' rfl hstep
    cases appStep_of_step hstep with
    | gateway e' gateway he hdriven hmembership hhandle hs' =>
        subst hs'
        obtain ⟨hgateway, hout⟩ := gateway_run hhandle
        exact ⟨[e'], gateway, exec_singleton hgateway, by rw [trace_singleton hgateway, hout], rfl⟩
    | membership userId workspaceId role he hs' hout =>
        subst hs'
        rw [hout]
        exact ⟨[.setMembership userId workspaceId role], _, rfl, rfl, rfl⟩
    | service e' x he hdriven hserver hs' hout =>
        subst hs'
        rw [hout]
        rcases manager_of_service hdriven hserver with hmanager | ⟨n, ws, markdown, u, hmanager⟩
        · refine ⟨[], s.gateway, rfl, rfl, ?_⟩
          simp only [State.setServer, hmanager]
        · refine ⟨[.manager (.appendMarkdown n ws markdown u)], _, rfl, rfl, ?_⟩
          simp only [State.setServer, hmanager]
    | resumed t operationId broadcasts x he hresume hs' =>
        obtain ⟨-, -, -, -, -, -, hmanager, -, -⟩ := resume_cases hresume
        have hhandle : Gateway.handle lex verify s.gateway (.manager (.resumeTask t)) =
            some ((s.setServer x).gateway, []) := by
          have hmanager : DocManager.step lex s.gateway.manager (.resumeTask t) =
              some x.manager := hmanager
          simp only [Gateway.handle, Gateway.internal, if_true, hmanager]
          rfl
        obtain ⟨hgateway, hnone⟩ := gateway_run hhandle
        rcases hs' with ⟨-, hannounce, hs'⟩ | ⟨hs', hout, -⟩
        · obtain ⟨hannounced, hout⟩ := gateway_run
            (show Gateway.handle lex verify _ (.announce t) = _ from hannounce)
          refine ⟨[.manager (.resumeTask t), .announce t], s'.gateway, ?_, ?_, rfl⟩
          · rw [exec_cons, hgateway]
            exact exec_singleton hannounced
          · rw [trace_cons _ hgateway, hnone, trace_singleton hannounced, hout]
            rfl
        · refine ⟨[.manager (.resumeTask t)], _, exec_singleton hgateway, ?_, ?_⟩
          · rw [trace_singleton hgateway, hnone, hout]
          · rw [hs']
    | restart he hs' hout =>
        subst hs'
        rw [hout]
        exact ⟨[.restart], _, rfl, rfl, rfl⟩

/-! ### The service in the process -/

/-- The service lets the manager take every step that it has no part in. -/
private theorem server_step_manager {x : Server} {e' : DocManager.Event}
    (happend : ∀ n ws markdown u, e' ≠ .appendMarkdown n ws markdown u)
    (hrestart : e' ≠ .restart) (hresume : ∀ t, e' = .resumeTask t → x.appends t = none) :
    Server.step lex hash x (.manager e') =
      (DocManager.step lex x.manager e').map fun manager => { x with manager := manager } := by
  cases e' with
  | appendMarkdown n ws markdown u => exact absurd rfl (happend n ws markdown u)
  | restart => exact absurd rfl hrestart
  | resumeTask t =>
      simp only [Server.step, hresume t rfl]
      rfl
  | _ => rfl

private theorem server_exec_manager {x : Server} {manager : DocManager.State}
    {xs : List DocManager.Event}
    (hxs : ∀ e' ∈ xs, (∀ n ws markdown u, e' ≠ .appendMarkdown n ws markdown u) ∧
      e' ≠ .restart ∧ ∀ t, e' = .resumeTask t → x.appends t = none)
    (h : exec (DocManager.step lex) x.manager xs = some manager) :
    exec (Server.step lex hash) x (xs.map .manager) = some { x with manager := manager } := by
  induction xs generalizing x with
  | nil =>
      cases h
      rfl
  | cons e' xs ih =>
      rw [exec_cons, Option.bind_eq_some_iff] at h
      obtain ⟨m, hstep, h⟩ := h
      obtain ⟨⟨happend, hrestart, hresume⟩, hxs⟩ := List.forall_mem_cons.mp hxs
      rw [List.map_cons, exec_cons, server_step_manager happend hrestart hresume, hstep]
      exact ih (x := { x with manager := m }) hxs h

/-- What the gateway calls, the service has no part in. -/
private theorem undriven_of_mem {e' : Gateway.Event} {gateway : Gateway.State}
    (hstep : Gateway.step lex verify s.gateway e' = some gateway) (hdriven : driven s e' = false)
    {x : DocManager.Event} (hx : x ∈ s.gateway.managerEvents e') :
    (∀ n ws markdown u, x ≠ .appendMarkdown n ws markdown u) ∧ x ≠ .restart ∧
      ∀ t, x = .resumeTask t → s.appends t = none := by
  cases Gateway.managerCall_of_mem hx with
  | manager x he =>
      subst he
      refine ⟨?_, ?_, ?_⟩
      · rintro n ws markdown u rfl
        cases hdriven
      · rintro rfl
        cases hstep
      · rintro t rfl
        simpa [driven] using hdriven
  | restart he =>
      subst he
      cases hdriven
  | _ => simp

/-- What is broadcast leaves the manager alone. -/
theorem manager_of_announce {g g' : Gateway.State} {t : TaskId} {out : List Output}
    (h : g.announce t = some (g', out)) : g'.manager = g.manager := by
  unfold Gateway.State.announce at h
  split at h
  · cases h
  · split at h
    · cases h
    · split at h <;> cases h
      rfl

/-- **The process is the service over its manager.** -/
def toServer (lex : Lexical) (verify : String → Option UserId)
    (hash : NodeContentOperationBody → String) :
    Simulation (step lex verify hash) (fun _ _ => ([] : List Empty)) (Server.step lex hash)
      (fun _ _ => []) where
  rel s x := s.server = x
  step := by
    have hnil : ∀ (x : Server) (fs : List NodeContent.ServerEvent),
        trace (Server.step lex hash) (fun _ _ => ([] : List Empty)) x fs = [] :=
      fun x fs => trace_eq_nil fun _ _ _ => rfl
    rintro s x e s' rfl hstep
    cases appStep_of_step hstep with
    | gateway e' gateway he hdriven hmembership hhandle hs' =>
        subst hs'
        have hgateway := (gateway_run hhandle).1
        exact ⟨(s.gateway.managerEvents e').map .manager, _,
          server_exec_manager (x := s.server) (fun x hx => undriven_of_mem hgateway hdriven hx)
            (Gateway.exec_manager hgateway), hnil _ _, rfl⟩
    | membership userId workspaceId role he hs' hout =>
        subst hs'
        exact ⟨[.service (.setMembership userId workspaceId role)], _, rfl, rfl, rfl⟩
    | service e' y he hdriven hserver hs' hout =>
        subst hs'
        exact ⟨[.service e'], y, exec_singleton hserver, hnil _ _, rfl⟩
    | resumed t operationId broadcasts y he hresume hs' =>
        have hserver : Server.step lex hash s.server (.resume t operationId broadcasts) =
            some y := hresume
        refine ⟨[.resume t operationId broadcasts], y, exec_singleton hserver, hnil _ _, ?_⟩
        rcases hs' with ⟨-, hannounce, hs'⟩ | ⟨hs', -, -⟩
        · rw [hs', State.server, manager_of_announce hannounce]
          rfl
        · rw [hs']
          rfl
    | restart he hs' hout =>
        subst hs'
        exact ⟨[.manager .restart], _, rfl, rfl, rfl⟩

/-- **Every run of the process is a run of both parts**: of the gateway, which sends the
same, and of the service over the manager, which ends in the same state. -/
theorem parts_of_run {nodes : NodeId → Option NodeRow}
    {memberships : UserId → WorkspaceId → Option Role} {es : List Event}
    (hes : exec (step lex verify hash) (.init nodes memberships) es = some s) :
    (∃ fs, exec (Gateway.step lex verify) (.init nodes memberships) fs = some s.gateway ∧
      trace (Gateway.step lex verify) (Gateway.outputs lex verify) (.init nodes memberships) fs =
        trace (step lex verify hash) (outputs lex verify hash) (.init nodes memberships) es) ∧
      ∃ gs, exec (Server.step lex hash) (.init nodes memberships) gs = some s.server := by
  obtain ⟨fs, g, hfs, htrace, rfl⟩ := (toGateway lex verify hash).exec rfl hes
  obtain ⟨gs, x, hgs, -, rfl⟩ := (toServer lex verify hash).exec rfl hes
  exact ⟨⟨fs, hfs, htrace⟩, gs, hgs⟩

/-! ### A run -/

/-- User `9` has opened node `1` when an operation on it arrives; the call claims its key. -/
def claimedRun : List Event :=
  (Gateway.joinSession 0 "token of 9" 7 0 ++ Gateway.openNode 0 1).map .gateway ++
    [.service (.execute 9 7 1 (some "12345678")
        ⟨.APPEND_MARKDOWN, "x", some 0, ⟨.AGENT, "agent", none, none⟩⟩),
      .service (.membershipReply 0 true), .service (.nodeReply 0 true),
      .service (.redisReply 0 .ok), .service (.redisReply 0 .ok)]

/-- The append runs and is saved; then its call resumes and returns. -/
def acknowledgedRun : List Event :=
  claimedRun ++ ([.startTask 0, .resumeAppend 0 100, .redisReply .ok, .updateNodeRow 0 .ok 20,
    .attachmentsSynced 0 true, .continueFlush 0, .enqueued 0 true].map fun e =>
      .gateway (.manager e)) ++ [.resume 0 55 true, .service (.redisReply 0 .ok)]

theorem acknowledgedRun_parts :
    ∃ s, exec (step .plain Gateway.plainToken fun _ => "")
        (.init NodeContent.Server.oneNode NodeContent.Server.editors) acknowledgedRun = some s ∧
      (∃ fs, exec (Gateway.step .plain Gateway.plainToken)
        (.init NodeContent.Server.oneNode NodeContent.Server.editors) fs = some s.gateway) ∧
      ∃ gs, exec (Server.step .plain fun _ => "")
        (.init NodeContent.Server.oneNode NodeContent.Server.editors) gs = some s.server := by
  have hrun : (exec (step .plain Gateway.plainToken fun _ => "")
      (.init NodeContent.Server.oneNode NodeContent.Server.editors) acknowledgedRun).isSome =
        true := by
    decide +kernel
  obtain ⟨s, hs⟩ := Option.isSome_iff_exists.mp hrun
  obtain ⟨⟨fs, hfs, -⟩, hgs⟩ := parts_of_run hs
  exact ⟨s, hs, ⟨fs, hfs⟩, hgs⟩

end AideepWebsocket.App
