import AideepWebsocket.DocManager.Operations
import AideepWebsocket.NodeContent.Idempotency

/-!
# NodeContentService over YjsDocManager

In `NodeContent.Operation` the promise of `appendMarkdown` settles as the world
pleases.  Here it is a task of the manager: a call that has claimed its key submits
it to the queue of the node, and goes on with what the task has settled with.  The
two services share the `nodes` table, and die together.

* `Server`, `Server.step` — the two services together;
* `ServerStep` — what an event can do.
-/

namespace AideepWebsocket.NodeContent

open Library
open DocManager (NodeRow Reply TaskId SaveId)
open Gateway (Role)

namespace Request

/-- `body.expectedVersion`. -/
def expectedVersion : Request → Option ℕ
  | .operation _ _ _ _ body => body.expectedVersion
  | .patch .. => none

/-- The markdown that is appended. -/
def markdown : Request → String
  | .operation _ _ _ _ body => body.markdown
  | .patch _ _ markdown _ _ => markdown

/-- On whose behalf. -/
def userId : Request → UserId
  | .operation userId _ _ _ _ => userId
  | .patch _ _ _ actorId _ => actorId

end Request

/-- The two services, and the call that awaits an append.  The `nodes` table is that
of the manager. -/
structure Server where
  manager : DocManager.State
  service : State
  appends : TaskId → Option CallId

inductive ServerEvent
  | manager (e : DocManager.Event)
  | service (e : Event)
  /-- The call that awaits the task resumes. -/
  | resume (t : TaskId) (operationId : ℕ) (broadcasts : Bool)
  deriving DecidableEq

namespace Server

def init (nodes : NodeId → Option NodeRow) (memberships : UserId → WorkspaceId → Option Role) :
    Server where
  manager := .init nodes
  service := .init nodes memberships
  appends _ := none

/-- The call `i` calls `appendMarkdown` if it has just claimed its key. -/
def appendMarkdown (s : Server) (i : CallId) : Server :=
  match s.service.calls i with
  | some ⟨request, .appendMarkdown _⟩ =>
      { s with
        manager := s.manager.runExclusive request.nodeId
          (.appendMarkdown request.workspaceId request.markdown request.userId)
        appends := Function.update s.appends s.manager.queue.next (some i) }
  | _ => s

@[simp] theorem appendMarkdown_service (s : Server) (i : CallId) :
    (s.appendMarkdown i).service = s.service := by
  unfold appendMarkdown
  split <;> rfl

/-- What the promise of `appendMarkdown` settles with. -/
def appended (x : DocManager.Task) (result : Except DocManager.Failure DocManager.Persisted)
    (operationId : ℕ) (broadcasts : Bool) : Appended :=
  match result with
  | .ok persisted =>
      .resolved (x.update.getD ⊥) persisted.version persisted.updatedAt operationId broadcasts
  | .error _ => .rejected

/-- The process ends, and its calls with it. -/
def restart (s : Server) : Server where
  manager := s.manager.restart
  service := { s.service with calls := fun _ => none }
  appends _ := none

/-- The task `t` has settled, and the call that awaits it goes on. -/
def resume (lex : Lexical) (s : Server) (t : TaskId) (operationId : ℕ) (broadcasts : Bool) :
    Option Server :=
  match s.appends t, s.manager.queue.task t with
  | some i, some entry =>
      match entry.payload.phase with
      | .settled result =>
          match DocManager.step lex s.manager (.resumeTask t),
              s.service.appendReply i (appended entry.payload result operationId broadcasts) with
          | some manager, some service =>
              some ⟨manager, service, Function.update s.appends t none⟩
          | _, _ => none
      | _ => none
  | _, _ => none

/-- One step of the server.  `appendMarkdown` is called by the service alone, and the
table is written through the manager. -/
def step (lex : Lexical) (hash : NodeContentOperationBody → String) (s : Server) :
    ServerEvent → Option Server
  | .manager (.appendMarkdown ..) => none
  | .manager .restart => some s.restart
  | .manager (.resumeTask t) =>
      if (s.appends t).isSome then none
      else (DocManager.step lex s.manager (.resumeTask t)).map fun manager =>
        { s with manager := manager }
  | .manager e => (DocManager.step lex s.manager e).map fun manager => { s with manager := manager }
  | .service (.appendReply ..) => none
  | .service (.writeNode ..) => none
  | .service (.redisReply i reply) =>
      (s.service.redisReply hash i reply).map fun service =>
        { s with service := service }.appendMarkdown i
  | .service e =>
      (NodeContent.step hash { s.service with nodes := s.manager.nodes } e).map fun service =>
        { s with service := service }
  | .resume t operationId broadcasts => s.resume lex t operationId broadcasts

end Server

/-! ### The server -/

namespace Server

variable {lex : Lexical} {hash : NodeContentOperationBody → String} {s s' : Server}
  {e : ServerEvent}

/-- What an event can do. -/
inductive ServerStep (lex : Lexical) (hash : NodeContentOperationBody → String) (s : Server)
    (e : ServerEvent) (s' : Server) : Prop
  | manager (e' : DocManager.Event) (manager : DocManager.State) (he : e = .manager e')
      (hstep : DocManager.step lex s.manager e' = some manager)
      (hs' : s' = { s with manager := manager })
  | restart (hs' : s' = s.restart)
  | service (e' : Event) (service : State) (hevent : e = .service e')
      (he : ∀ i result, e' ≠ .appendReply i result)
      (hstep : NodeContent.step hash { s.service with nodes := s.manager.nodes } e' =
        some service)
      (hs' : s' = { s with service := service })
  | redis (i : CallId) (reply : Reply) (service : State)
      (hstep : NodeContent.step hash s.service (.redisReply i reply) = some service)
      (hs' : s' = { s with service := service }.appendMarkdown i)
  | resumed (t : TaskId) (i : CallId) (entry : ChainTask NodeId DocManager.Task)
      (result : Except DocManager.Failure DocManager.Persisted) (manager : DocManager.State)
      (service : State) (operationId : ℕ) (broadcasts : Bool) (hi : s.appends t = some i)
      (htask : s.manager.queue.task t = some entry)
      (hphase : entry.payload.phase = .settled result)
      (hmanager : DocManager.step lex s.manager (.resumeTask t) = some manager)
      (hservice : s.service.appendReply i (appended entry.payload result operationId broadcasts) =
        some service)
      (hs' : s' = ⟨manager, service, Function.update s.appends t none⟩)

private theorem serverStep_of_map {e' : DocManager.Event}
    (h : (DocManager.step lex s.manager e').map (fun manager => { s with manager := manager }) =
      some s') : ServerStep lex hash s (.manager e') s' := by
  obtain ⟨manager, hstep, rfl⟩ := Option.map_eq_some_iff.mp h
  exact .manager e' manager rfl hstep rfl

/-- **What a step can do.** -/
theorem serverStep_of_step (h : step lex hash s e = some s') : ServerStep lex hash s e s' := by
  cases e with
  | manager e' =>
      cases e' with
      | appendMarkdown _ _ _ _ => cases h
      | restart =>
          cases h
          exact .restart rfl
      | resumeTask t =>
          simp only [step] at h
          split at h
          · cases h
          · exact serverStep_of_map h
      | _ => exact serverStep_of_map h
  | service e' =>
      cases e' with
      | appendReply _ _ => cases h
      | writeNode _ _ => cases h
      | redisReply i reply =>
          obtain ⟨service, hstep, rfl⟩ := Option.map_eq_some_iff.mp h
          exact .redis i reply service hstep rfl
      | setMembership userId workspaceId role =>
          cases h
          exact .service (.setMembership userId workspaceId role) _ rfl (fun _ _ he => by cases he)
            rfl rfl
      | _ =>
          obtain ⟨service, hstep, rfl⟩ := Option.map_eq_some_iff.mp h
          exact .service _ service rfl (fun _ _ he => by cases he) hstep rfl
  | resume t operationId broadcasts =>
      simp only [step, resume] at h
      split at h
      · next i entry hi htask =>
          split at h
          · next result hphase =>
              split at h
              · next manager service hmanager hservice =>
                  cases h
                  exact .resumed t i entry result manager service operationId broadcasts hi htask
                    hphase hmanager hservice rfl
              · cases h
          · cases h
      · cases h

end Server

end AideepWebsocket.NodeContent
