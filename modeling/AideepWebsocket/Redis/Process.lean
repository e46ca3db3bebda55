import AideepWebsocket.Gateway.Confinement
import AideepWebsocket.Redis.Commands

/-!
# The process over one Redis

Here the process has no tables: its services issue commands on the text of one store, and
go on with the text of the answers.  The API server commands the same store, on keys of its
own; a worker takes jobs from the queue; and keys lapse.

* `Process.State` — the process, of which only what is not in Redis is looked at, and the
  store;
* `Process.handle` — one step, with what it sends;
* `Process.refines` — **the process over one Redis is the process over tables**: it sends
  the same, the members of a workspace in the order in which Redis lists them, and the store
  represents the tables at every moment.

So what is proved over tables holds over the text as well: no key is mistaken for another,
nothing that is stored is read as something else, and nothing that the API server does
under its keys can be noticed.
-/

namespace AideepWebsocket.Redis

open Library
open Library.Redis (Answer Command Entry Store Value execute)
open DocManager (EmbedJob NodeRow RedisCommand Reply SaveId TaskId)
open Gateway (Output Role)
open NodeContent (CallId NodeContentOperationBody)

namespace Process

structure State where
  app : App.State
  store : Store
  /-- What the worker has taken from the queue. -/
  taken : List String

inductive Event
  /-- A step of the process that commands no Redis. -/
  | app (e : App.Event)
  /-- The oldest command of the gateway ends. -/
  | gatewayReply (reply : Reply)
  /-- The oldest command of the manager ends. -/
  | managerReply (reply : Reply)
  | callReply (i : CallId) (reply : Reply)
  | enqueued (t : TaskId) (reply : Reply)
  | attachmentsSynced (save : SaveId) (reply : Reply)
  /-- The API server commands Redis. -/
  | other (key : Key) (command : Command)
  | takeJob
  | lapse (key : String)

namespace State

def init (nodes : NodeId → Option NodeRow) (memberships : UserId → WorkspaceId → Option Role) :
    State where
  app := .init nodes memberships
  store _ := none
  taken := []

def setGateway (s : State) (g : Gateway.State) : State :=
  { s with app := { s.app with gateway := g } }

def setManager (s : State) (m : DocManager.State) : State :=
  s.setGateway { s.app.gateway with manager := m }

end State

/-- A command ends: what is left in the store, and the answer if there is one. -/
def issued (F : Format) (store : Store) (command : Command) (reply : Reply) :
    Store × Option Answer :=
  let (store', answer) := execute F.order store command
  (if reply.executed then store' else store, if reply = .ok then some answer else none)

variable (F : Format)

/-- The oldest command of the gateway ends, and its handler resumes. -/
def gatewayReply (s : State) (reply : Reply) : Option (State × List Output) :=
  match s.app.gateway.commands with
  | [] => none
  | h :: rest =>
      let g := { s.app.gateway with commands := rest }
      match g.handlers h with
      | none => some (s.setGateway g, [])
      | some ⟨socket, pending⟩ =>
          match F.gatewayCommand pending with
          | none => some (s.setGateway g, [])
          | some command =>
              let (store, answer) := issued F s.store command reply
              let (g, out) := g.resume h socket ((answer.map F.gatewayAnswer).getD .error) pending
              some ({ s.setGateway g with store := store }, out)

/-- The oldest command of the manager ends: a load goes on with what it has found, and a
task learns how its `saveToRedis` has ended. -/
def managerReply (s : State) (reply : Reply) : Option State :=
  match s.app.gateway.manager.redis.commands with
  | [] => none
  | command :: rest =>
      let m := { s.app.gateway.manager with
        redis := { s.app.gateway.manager.redis with commands := rest } }
      match command with
      | .get l =>
          match m.loader.loads l with
          | some ⟨nodeId, _, .loadFromRedis⟩ =>
              let (store, answer) := issued F s.store (F.loadFromRedis nodeId) reply
              let phase := (answer.map F.loadedFromRedis).getD (.redisAnswered none)
              some { s.setManager { m with loader := m.loader.setPhase l phase } with
                store := store }
          | _ => some (s.setManager m)
      | .set nodeId state t =>
          let (store, answer) := issued F s.store (F.saveToRedis nodeId state) reply
          some { s.setManager (m.saveToRedisReply t answer.isSome) with store := store }
      | .del nodeId =>
          let (store, _) := issued F s.store (F.deleteFromRedis nodeId) reply
          some { s.setManager m with store := store }

variable (lex : Lexical) (hash : NodeContentOperationBody → String)

/-- The command of a call ends, and the call resumes; one that has claimed its key calls
`appendMarkdown`.  The database keeps versions that are `Int`s. -/
def callReply (s : State) (i : CallId) (reply : Reply) : Option State :=
  match s.app.service.calls i with
  | none => none
  | some call =>
      match F.callCommand hash call.request call.phase with
      | none => none
      | some command =>
          if storable call.phase then
            let (store, answer) := issued F s.store command reply
            let service := s.app.service.setPhase i call
              (F.resumeCall hash call.request call.phase answer)
            some { s with
              app := s.app.setServer ({ s.app.server with service := service }.appendMarkdown i)
              store := store }
          else none

/-- The job with which a task is suspended. -/
def embedJob (m : DocManager.State) (t : TaskId) : Option EmbedJob :=
  (m.queue.task t).bind fun entry =>
    match entry.payload.phase with
    | .embedding _ _ job => some job
    | _ => none

/-- `enqueueEmbedJob` ends; its errors are only logged. -/
def enqueued (s : State) (t : TaskId) (reply : Reply) : Option State :=
  match embedJob s.app.gateway.manager t, s.app.gateway.manager.enqueued t false with
  | some job, some m =>
      some { s.setManager m with store := (issued F s.store (F.enqueueEmbedJob job) reply).1 }
  | _, _ => none

/-- `syncNodeAttachments` has ended, and `saveToDb` has invalidated the workspace. -/
def attachmentsSynced (s : State) (save : SaveId) (reply : Reply) : Option State :=
  match s.app.gateway.manager.saves save, s.app.gateway.manager.attachmentsSynced save true with
  | some c, some m =>
      some { s.setManager m with
        store := (issued F s.store (F.invalidateSync c.workspaceId) reply).1 }
  | _, _ => none

/-- The worker takes the oldest job. -/
def takeJob (s : State) : Option State :=
  match s.store (F.key .EMBED_JOBS_QUEUE) with
  | some ⟨.list (item :: items), _⟩ =>
      some { s with
        store := Function.update s.store (F.key .EMBED_JOBS_QUEUE) (Format.listEntry items)
        taken := s.taken ++ [item] }
  | _ => none

/-- The steps of the process that command Redis all the same. -/
def invalidates : App.Event → Bool
  | .gateway (.manager (.attachmentsSynced _ ok)) => ok
  | _ => false

variable (verify : String → Option UserId)

/-- One step, with what it sends. -/
def handle (s : State) : Event → Option (State × List Output)
  | .app e =>
      if appCommands e || invalidates e then none
      else (App.handle lex verify hash s.app e).map fun (app, out) => ({ s with app := app }, out)
  | .gatewayReply reply => gatewayReply F s reply
  | .managerReply reply => (managerReply F s reply).map fun s => (s, [])
  | .callReply i reply => (callReply F hash s i reply).map fun s => (s, [])
  | .enqueued t reply => (enqueued F s t reply).map fun s => (s, [])
  | .attachmentsSynced save reply => (attachmentsSynced F s save reply).map fun s => (s, [])
  | .other key command =>
      if key.foreign && command.key = F.key key then
        some ({ s with store := (execute F.order s.store command).1 }, [])
      else none
  | .takeJob => (takeJob F s).map fun s => (s, [])
  | .lapse key => (Library.Redis.lapse s.store key).map fun store => ({ s with store := store }, [])

def step (s : State) (e : Event) : Option State := (handle F lex hash verify s e).map Prod.fst

/-- What a step sends. -/
def outputs (s : State) (e : Event) : List Output :=
  ((handle F lex hash verify s e).map Prod.snd).getD []

variable {F lex hash verify}

theorem step_eq_some {s s' : State} {e : Event} :
    step F lex hash verify s e = some s' ↔
      handle F lex hash verify s e = some (s', outputs F lex hash verify s e) := by
  unfold step outputs
  cases handle F lex hash verify s e with
  | none => simp
  | some p => simp [Prod.ext_iff]

/-! ### What is observed -/

/-- What the API server publishes. -/
def published : App.Event → Bool
  | .gateway (.broadcast _) | .gateway (.broadcastYjsUpdate _ _) | .service (.patch _) => true
  | _ => false

/-- The operations that a client requests. -/
def requested : App.Event → Bool
  | .service (.execute ..) => true
  | _ => false

/-- What the process is told by the API server and by HTTP. -/
def external (e : App.Event) : Bool := published e || requested e

def told : Event → List App.Event
  | .app e => [e].filter external
  | _ => []

/-- What a step over tables sends, with the members of a workspace in the order in which Redis
lists them. -/
def listedOutputs (F : Format) (lex : Lexical) (verify : String → Option UserId)
    (hash : NodeContentOperationBody → String) (a : App.State) (e : App.Event) : List Output :=
  (App.outputs lex verify hash a e).map F.relisted

/-- What a step over tables sends, and what it was told. -/
def appObserved (F : Format) (lex : Lexical) (verify : String → Option UserId)
    (hash : NodeContentOperationBody → String) :
    App.State → App.Event → List (Output ⊕ App.Event) :=
  both (listedOutputs F lex verify hash) fun _ e => [e].filter external

/-- What a step over the text sends, and what it was told. -/
def observed (F : Format) (lex : Lexical) (hash : NodeContentOperationBody → String)
    (verify : String → Option UserId) : State → Event → List (Output ⊕ App.Event) :=
  both (outputs F lex hash verify) fun _ e => told e

/-! ### The tables behind the store -/

variable {s s' : State} {T T' : Tables} {taken : List String} {store : Store}
  {command : Command} {reply : Reply} {out : List Output}

private theorem represents_issued (reply : Reply) (h : F.Represents T taken store)
    (hexecute : F.Represents T' taken (execute F.order store command).1) :
    F.Represents (if reply.executed then T' else T) taken (issued F store command reply).1 := by
  unfold issued
  dsimp only
  split
  · exact hexecute
  · exact h

/-- The gateway over the tables learns how its oldest command has ended. -/
private theorem redisReply_intoGateway {g : Gateway.State} {h : Gateway.HandlerId}
    {rest : List Gateway.HandlerId} {socket : SocketId} {pending : Gateway.Pending}
    (hcommands : g.commands = h :: rest) (hx : g.handlers h = some ⟨socket, pending⟩) :
    (T.intoGateway g).redisReply reply = some
      ((if reply.executed then T.afterGateway pending else T).intoResult
        (({ g with commands := rest } : Gateway.State).resume h socket
          (if reply = .ok then (T.intoGateway g).answerTo pending else .error) pending)) := by
  rw [Gateway.redisReply_of_command (s := T.intoGateway g) reply hcommands hx,
    ← IntoGateway.resume, executeCommand_intoGateway]
  split <;> rfl

/-- A handler that awaits no command of Redis. -/
private theorem resume_of_gatewayCommand {g : Gateway.State} {h : Gateway.HandlerId}
    {socket : SocketId} {pending : Gateway.Pending} (answer : Gateway.Answer)
    (hnone : F.gatewayCommand pending = none) :
    g.resume h socket answer pending = (g, []) := by
  cases pending with
  | joinCheckWorkspace workspaceId member => rfl
  | yjsCheckWorkspace userId workspaceId nodeId => rfl
  | yjsGetOrCreateDoc workspaceId role nodeId get => rfl
  | _ => cases hnone

private theorem afterGateway_of_gatewayCommand {pending : Gateway.Pending}
    (hnone : F.gatewayCommand pending = none) : T.afterGateway pending = T := by
  cases pending with
  | joinUpsertPresence workspaceId member => cases hnone
  | leaveRemovePresence workspaceId userId => cases hnone
  | cacheAwareness workspaceId data => cases hnone
  | _ => rfl

/-- Where no members are listed, there is no order. -/
private theorem map_relisted
    (h : ∀ recipients ws members, .emit recipients (.presenceState ws members) ∉ out) :
    out.map F.relisted = out := by
  refine (List.map_congr_left fun x hx => ?_).trans (List.map_id out)
  unfold Format.relisted
  split
  next recipients ws members => exact absurd hx (h recipients ws members)
  next => rfl

/-- A handler lists no members when its command has failed. -/
private theorem relisted_resume_error (g : Gateway.State) (h : Gateway.HandlerId)
    (socket : SocketId) (pending : Gateway.Pending) :
    (g.resume h socket .error pending).2.map F.relisted = (g.resume h socket .error pending).2 := by
  cases pending <;> rfl

/-- A handler goes on as it would over the tables, but for the order of the members. -/
private theorem resume_issued {g : Gateway.State} {pending : Gateway.Pending}
    (h : F.Represents T taken store) (hcommand : F.gatewayCommand pending = some command)
    (reply : Reply) (handler : Gateway.HandlerId) (socket : SocketId) (g' : Gateway.State) :
    ∃ out',
      (g'.resume handler socket
        (((issued F store command reply).2.map F.gatewayAnswer).getD .error) pending).2 =
          out'.map F.relisted ∧
      g'.resume handler socket
          (if reply = .ok then (T.intoGateway g).answerTo pending else .error) pending =
        ((g'.resume handler socket
          (((issued F store command reply).2.map F.gatewayAnswer).getD .error) pending).1,
          out') := by
  have hfailed := (relisted_resume_error (F := F) g' handler socket pending).symm
  cases reply with
  | ok =>
      have hresume := resume_gateway (g := g) h hcommand handler socket g'
      exact ⟨_, congrArg Prod.snd hresume, Prod.ext (congrArg Prod.fst hresume).symm rfl⟩
  | lost => exact ⟨_, hfailed, rfl⟩
  | failed => exact ⟨_, hfailed, rfl⟩

/-- The process over tables answers a step. -/
private def Answered (F : Format) (lex : Lexical) (hash : NodeContentOperationBody → String)
    (verify : String → Option UserId) (T : Tables) (s s' : State) (out : List Output) : Prop :=
  ∃ T' e out', external e = false ∧
    App.handle lex verify hash (T.into s.app) e = some (T'.into s'.app, out') ∧
    out = out'.map F.relisted ∧ F.Represents T' s'.taken s'.store

/-- The gateway learns how its oldest command has ended. -/
private theorem gatewayReply_answered (h : F.Represents T s.taken s.store)
    (hreply : gatewayReply F s reply = some (s', out)) :
    Answered F lex hash verify T s s' out := by
  have hanswered : ∀ {T' : Tables} {g : Gateway.State} {store : Store} {out' : List Output},
      (T.intoGateway s.app.gateway).redisReply reply = some (T'.intoGateway g, out') →
      out = out'.map F.relisted → T'.cache = T.cache ∧ T'.nodes = T.nodes →
        F.Represents T' s.taken store →
        Answered F lex hash verify T s { s.setGateway g with store := store } out := by
    intro T' g store out' htyped hout ⟨hcache, hnodes⟩ hrepresents
    refine ⟨T', .gateway (.redisReply reply), out', rfl, ?_, hout, hrepresents⟩
    have hhandle : App.handle lex verify hash (T.into s.app) (.gateway (.redisReply reply)) =
        ((T.intoGateway s.app.gateway).redisReply reply).map fun p =>
          ({ T.into s.app with gateway := p.1 }, p.2) := rfl
    rw [hhandle, htyped]
    simp only [Option.map_some, Tables.into, Tables.intoService, State.setGateway, hcache, hnodes]
  unfold gatewayReply at hreply
  split at hreply
  · cases hreply
  · next handler rest hcommands =>
      have hsame : (T.intoGateway s.app.gateway).commands = handler :: rest := hcommands
      have hhandlers : (T.intoGateway s.app.gateway).handlers = s.app.gateway.handlers := rfl
      dsimp only at hreply
      split at hreply
      · next hnone =>
          cases hreply
          have htyped : (T.intoGateway s.app.gateway).redisReply reply =
              some (T.intoGateway { s.app.gateway with commands := rest }, []) := by
            rw [Gateway.State.redisReply, hsame]
            dsimp only
            rw [hhandlers, hnone]
            rfl
          exact hanswered htyped rfl ⟨rfl, rfl⟩ h
      · next socket pending hx =>
          split at hreply
          · next hcommand =>
              cases hreply
              refine @hanswered _ _ _ [] ?_ rfl ⟨rfl, rfl⟩ h
              rw [redisReply_intoGateway hcommands hx, resume_of_gatewayCommand _ hcommand,
                afterGateway_of_gatewayCommand hcommand, ite_self]
              rfl
          · next command hcommand =>
              cases hreply
              obtain ⟨out', hout, hresume⟩ := resume_issued (g := s.app.gateway) h hcommand reply
                handler socket { s.app.gateway with commands := rest }
              refine hanswered ?_ hout ?_ (represents_issued reply h (represents_gateway h hcommand))
              · rw [redisReply_intoGateway hcommands hx, hresume]
                rfl
              · split
                · cases pending <;> exact ⟨rfl, rfl⟩
                · exact ⟨rfl, rfl⟩

/-- A step of the manager over the tables. -/
private theorem manager_answered (T' : Tables) (e : DocManager.Event) {m : DocManager.State}
    (hinternal : Gateway.internal e = true) (hdriven : App.driven s.app (.manager e) = false)
    (hstep : DocManager.step lex (T.intoManager s.app.gateway.manager) e = some (T'.intoManager m))
    (htables : T' = { T with docs := T'.docs, jobs := T'.jobs })
    (h : F.Represents T' s.taken store) :
    Answered F lex hash verify T s { s.setManager m with store := store } [] := by
  refine ⟨T', .gateway (.manager e), [], rfl, ?_, rfl, h⟩
  have hhandle : App.handle lex verify hash (T.into s.app) (.gateway (.manager e)) =
      if App.driven s.app (.manager e) then none
      else (if Gateway.internal e then
          (DocManager.step lex (T.intoManager s.app.gateway.manager) e).map fun m =>
            ({ T.intoGateway s.app.gateway with manager := m }, ([] : List Output))
        else none).map fun p => ({ T.into s.app with gateway := p.1 }, p.2) := rfl
  rw [hhandle, hdriven, hinternal, hstep, htables]
  rfl

private theorem saveToRedisReply_intoManager (m : DocManager.State) (t : TaskId) (ok : Bool) :
    (T.intoManager m).saveToRedisReply t ok = T.intoManager (m.saveToRedisReply t ok) := by
  have hqueue : (T.intoManager m).queue = m.queue := rfl
  unfold DocManager.State.saveToRedisReply
  rw [hqueue]
  split
  · rfl
  · split <;> rfl

/-- The manager learns how its oldest command has ended. -/
private theorem managerReply_answered (h : F.Represents T s.taken s.store)
    (hreply : managerReply F s reply = some s') : Answered F lex hash verify T s s' [] := by
  unfold managerReply at hreply
  split at hreply
  · cases hreply
  · next command rest hcommands =>
      have hsame : (T.intoManager s.app.gateway.manager).redis.commands = command :: rest :=
        hcommands
      have hloader : (T.intoManager s.app.gateway.manager).loader = s.app.gateway.manager.loader :=
        rfl
      cases command with
      | get l =>
          dsimp only at hreply
          split at hreply
          · next nodeId workspaceId hload =>
              cases hreply
              refine manager_answered T (.redisReply reply) rfl rfl ?_ rfl ?_
              · simp only [DocManager.step, DocManager.State.redisReply, hsame, hloader, hload]
                cases hok : reply with
                | ok =>
                    simp only [issued, if_true, Option.map_some, Option.getD_some,
                      loadedFromRedis_docs h]
                    rfl
                | _ => rfl
              · have hissued := represents_issued reply h
                  (represents_loadFromRedis h nodeId)
                rw [ite_self] at hissued
                exact hissued
          · next hload =>
              cases hreply
              refine manager_answered T (.redisReply reply) rfl rfl ?_ rfl h
              simp only [DocManager.step, DocManager.State.redisReply, hsame, hloader]
              rfl
      | set nodeId state t =>
          cases hreply
          refine manager_answered (if reply.executed then T.setDoc nodeId (some ⟨state, t⟩) else T)
            (.redisReply reply) rfl rfl ?_ ?_
            (represents_issued reply h (represents_saveToRedis h nodeId ⟨state, t⟩))
          · simp only [DocManager.step, DocManager.State.redisReply, hsame]
            have hsave := fun (T : Tables) (ok : Bool) => saveToRedisReply_intoManager (T := T)
              { s.app.gateway.manager with
                redis := { s.app.gateway.manager.redis with commands := rest } } t ok
            cases reply with
            | ok => exact congrArg some (hsave (T.setDoc nodeId (some ⟨state, t⟩)) true)
            | lost => exact congrArg some (hsave (T.setDoc nodeId (some ⟨state, t⟩)) false)
            | failed => exact congrArg some (hsave T false)
          · split <;> rfl
      | del nodeId =>
          cases hreply
          refine manager_answered (if reply.executed then T.setDoc nodeId none else T)
            (.redisReply reply) rfl rfl ?_ ?_
            (represents_issued reply h (represents_deleteFromRedis h nodeId))
          · simp only [DocManager.step, DocManager.State.redisReply, hsame]
            cases reply <;> rfl
          · split <;> rfl

/-- A call changes its own table. -/
private theorem afterCall_eq {request : NodeContent.Request} {phase : NodeContent.Phase}
    (i : CallId) : ∃ cache, T.afterCall hash i request phase = { T with cache := cache } := by
  unfold Tables.afterCall
  split
  · split <;> exact ⟨_, rfl⟩
  · exact ⟨_, rfl⟩
  · exact ⟨_, rfl⟩
  · exact ⟨_, rfl⟩

/-- A call learns how its command has ended. -/
private theorem callReply_answered (h : F.Represents T s.taken s.store) {i : CallId}
    (hreply : callReply F hash s i reply = some s') : Answered F lex hash verify T s s' [] := by
  unfold callReply at hreply
  split at hreply
  · cases hreply
  · next call hcall =>
      split at hreply
      · cases hreply
      · next command hcommand =>
          split at hreply
          · next hstorable =>
              cases hreply
              refine ⟨if reply.executed then T.afterCall hash i call.request call.phase else T,
                .service (.redisReply i reply), [], rfl, ?_, rfl,
                represents_issued reply h (represents_call h i hstorable hcommand)⟩
              have hphase : F.resumeCall hash call.request call.phase
                  (issued F s.store command reply).2 =
                    if reply = .ok then T.nextPhase hash call.request call.phase
                    else .returned (.error .redis) := by
                cases reply with
                | ok => exact resume_call h hcommand
                | _ => exact resumeCall_none
              have hservice : (T.into s.app).server.service = T.intoService s.app.service := rfl
              have hhandle : App.handle lex verify hash (T.into s.app)
                  (.service (.redisReply i reply)) =
                (((T.into s.app).server.service.redisReply hash i reply).map fun service =>
                  { (T.into s.app).server with service := service }.appendMarkdown i).map
                    fun y => ((T.into s.app).setServer y, []) := rfl
              obtain ⟨cache, hcache⟩ : ∃ cache,
                  (if reply.executed then T.afterCall hash i call.request call.phase else T) =
                    { T with cache := cache } := by
                split
                · exact afterCall_eq i
                · exact ⟨T.cache, rfl⟩
              rw [hhandle, hservice, redisReply_of_callCommand reply hcall hcommand, ← hphase,
                hcache]
              refine congrArg some (Prod.ext ?_ rfl)
              exact congrArg (T.into s.app).setServer (appendMarkdown_intoServer
                (T := { T with cache := cache }) { s.app.server with
                  service := s.app.service.setPhase i call (F.resumeCall hash call.request
                    call.phase (issued F s.store command reply).2) } i)
          · cases hreply

private theorem embedJob_eq_some {m : DocManager.State} {t : TaskId} {job : EmbedJob}
    (h : embedJob m t = some job) :
    ∃ entry r persisted, m.queue.task t = some entry ∧
      entry.payload.phase = .embedding r persisted job := by
  obtain ⟨entry, htask, hjob⟩ := Option.bind_eq_some_iff.mp h
  cases hphase : entry.payload.phase with
  | embedding r persisted job' =>
      rw [hphase] at hjob
      cases hjob
      exact ⟨entry, r, persisted, htask, hphase⟩
  | _ =>
      rw [hphase] at hjob
      cases hjob

/-- With or without a job, the task goes on in the same way. -/
private theorem enqueued_intoManager {m m' : DocManager.State} {t : TaskId} {job : EmbedJob}
    (hjob : embedJob m t = some job) (h : m.enqueued t false = some m') (ok : Bool) :
    (T.intoManager m).enqueued t ok = some ((if ok then T.addJob job else T).intoManager m') := by
  have hqueue : (T.intoManager m).queue = m.queue := rfl
  obtain ⟨entry, r, persisted, htask, hphase⟩ := embedJob_eq_some hjob
  simp only [DocManager.State.enqueued, htask, hphase, hqueue] at h ⊢
  cases h
  cases ok <;> rfl

/-- A job has joined the queue. -/
private theorem enqueued_answered (h : F.Represents T s.taken s.store) {t : TaskId}
    (hreply : enqueued F s t reply = some s') : Answered F lex hash verify T s s' [] := by
  unfold enqueued at hreply
  split at hreply
  · next job m hjob hm =>
      cases hreply
      refine manager_answered (if reply.executed then T.addJob job else T)
        (.enqueued t reply.executed) rfl rfl ?_ ?_
        (represents_issued reply h (represents_enqueueEmbedJob h job))
      · have hok := enqueued_intoManager (T := T) hjob hm reply.executed
        cases reply <;> exact hok
      · split <;> rfl
  · cases hreply

/-- The workspace has been invalidated. -/
private theorem attachmentsSynced_answered (h : F.Represents T s.taken s.store) {save : SaveId}
    (hreply : attachmentsSynced F s save reply = some s') :
    Answered F lex hash verify T s s' [] := by
  unfold attachmentsSynced at hreply
  split at hreply
  · next c m hc hm =>
      cases hreply
      refine manager_answered T (.attachmentsSynced save true) rfl rfl ?_ rfl ?_
      · rw [DocManager.step, IntoManager.attachmentsSynced, hm]
        rfl
      · have hforeign : F.Represents T s.taken
            (execute F.order s.store (F.invalidateSync c.workspaceId)).1 :=
          represents_foreign h (show (Key.WORKSPACE_SYNC c.workspaceId).foreign = true from rfl) rfl
        have hissued := represents_issued reply h hforeign
        rw [ite_self] at hissued
        exact hissued
  · cases hreply

/-- A key of the service that lapses. -/
private theorem cache_lapse (lex : Lexical) (hash : NodeContentOperationBody → String)
    (verify : String → Option UserId) (s : State) {cacheKey : NodeContent.CacheKey}
    (hsome : (T.cache cacheKey).isSome = true) :
    ∃ e, external (.service e) = false ∧ App.handle lex verify hash (T.into s.app) (.service e) =
      some ({ T.setCache cacheKey none with nodes := s.app.gateway.manager.nodes }.into s.app,
        []) := by
  obtain ⟨entry, hentry⟩ := Option.isSome_iff_exists.mp hsome
  obtain ⟨value, owner⟩ := entry
  have hlapse (e : NodeContent.Event) (hdriven : App.drivenService e = false)
      (hserver : NodeContent.Server.step lex hash (T.into s.app).server (.service e) =
        (NodeContent.step hash { T.intoService s.app.service with
          nodes := s.app.gateway.manager.nodes } e).map fun service =>
            { (T.into s.app).server with service := service })
      (hstep : NodeContent.step hash { T.intoService s.app.service with
          nodes := s.app.gateway.manager.nodes } e =
        some ({ T.setCache cacheKey none with nodes := s.app.gateway.manager.nodes }.intoService
          s.app.service)) :
      App.handle lex verify hash (T.into s.app) (.service e) =
        some ({ T.setCache cacheKey none with nodes := s.app.gateway.manager.nodes }.into s.app,
          []) := by
    simp only [App.handle, hdriven, hserver, hstep]
    rfl
  have hcache : ({ T.intoService s.app.service with
      nodes := s.app.gateway.manager.nodes } : NodeContent.State).cache cacheKey =
        some ⟨value, owner⟩ := hentry
  cases value with
  | inProgress requestHash =>
      exact ⟨_, rfl, hlapse (.claimExpire cacheKey) rfl rfl (by rw [NodeContent.step, hcache]; rfl)⟩
  | response requestHash response =>
      exact ⟨_, rfl,
        hlapse (.responseExpire cacheKey) rfl rfl (by rw [NodeContent.step, hcache]; rfl)⟩
  | applied =>
      exact ⟨_, rfl,
        hlapse (.responseExpire cacheKey) rfl rfl (by rw [NodeContent.step, hcache]; rfl)⟩

/-- A key that lapses is one of a table, or nobody's. -/
private theorem lapse_answered (h : F.Represents T s.taken s.store) {key : String}
    {store : Store} (hlapse : Library.Redis.lapse s.store key = some store) :
    F.Represents T s.taken store ∨
      Answered F lex hash verify T s { s with store := store } [] := by
  obtain ⟨⟨value, ttl, hentry⟩, rfl⟩ := Library.Redis.lapse_eq_some hlapse
  by_cases hkey : ∃ key', F.key key' = key
  · obtain ⟨key', rfl⟩ := hkey
    have hold := h key'
    rw [hentry] at hold
    cases key' with
    | BLACKLIST accessToken => exact Or.inl (h.lapse (fun _ _ _ hold => hold) trivial)
    | MASTER_TOKEN userId => exact Or.inl (h.lapse (fun _ _ _ hold => hold) trivial)
    | WORKSPACE_SYNC workspaceId => exact Or.inl (h.lapse (fun _ _ _ hold => hold) trivial)
    | YJS_DOC nodeId =>
        exact Or.inr (manager_answered (T.setDoc nodeId none) (.redisExpire nodeId) rfl rfl rfl rfl
          (represents_lapse_doc h nodeId))
    | YJS_WS_AWARENESS workspaceId =>
        exact Or.inr ⟨T.setAwareness workspaceId none, .gateway (.awarenessExpire workspaceId), [],
          rfl, rfl, rfl, represents_lapse_awareness h workspaceId⟩
    | WS_PRESENCE workspaceId =>
        exact Or.inr ⟨T.setPresence workspaceId [], .gateway (.presenceExpire workspaceId), [],
          rfl, rfl, rfl, represents_lapse_presence h workspaceId⟩
    | NODE_CONTENT_OPERATION cacheKey =>
        have hsome : (T.cache cacheKey).isSome = true := by
          cases hcache : T.cache cacheKey with
          | some e => rfl
          | none =>
              have hnone := hold.1
              rw [hcache] at hnone
              cases hnone
        obtain ⟨e, htold, he⟩ := cache_lapse lex hash verify s hsome
        exact Or.inr ⟨_, .service e, [], htold, he, rfl, represents_lapse_cache h cacheKey⟩
    | EMBED_JOBS_QUEUE =>
        obtain ⟨items, hlist, -⟩ := hold
        cases items <;> cases hlist
  · refine Or.inl fun key' => ?_
    have hne : F.key key' ≠ key := fun heq => hkey ⟨key', heq⟩
    rw [Function.update_of_ne hne]
    exact h key'

/-- Only the answers to `listPresence` list members. -/
private theorem relisted_of_handle {a a' : App.State} {e : App.Event}
    (he : appCommands e = false) (h : App.handle lex verify hash a e = some (a', out)) :
    out.map F.relisted = out := by
  have hgateway {g g' : Gateway.State} {e' : Gateway.Event}
      (hhandle : Gateway.handle lex verify g e' = some (g', out))
      (he' : ∀ reply, e' ≠ .redisReply reply) : out.map F.relisted = out := by
    refine map_relisted fun recipients ws members hmem => ?_
    have hout : Gateway.outputs lex verify g e' = out := by
      rw [Gateway.outputs, hhandle]
      rfl
    rw [← hout] at hmem
    cases Gateway.sent_of_outputs hmem with
    | presenceState _ _ reply hreply _ => exact he' reply hreply
    | node _ hws => cases hws
  have hstep : App.step lex verify hash a e = some a' := by
    rw [App.step, h]
    rfl
  have hcases : App.AppStep lex verify hash a e a' out := by
    have hout : App.outputs lex verify hash a e = out := by
      rw [App.outputs, h]
      rfl
    exact hout ▸ App.appStep_of_step hstep
  cases hcases with
  | gateway e' gateway heq hdriven hmembership hhandle hs' =>
      subst heq
      refine hgateway hhandle ?_
      rintro reply rfl
      cases he
  | membership userId workspaceId role heq hs' hout => exact hout ▸ rfl
  | service e' x heq hdriven hserver hs' hout => exact hout ▸ rfl
  | resumed t operationId broadcasts x heq hresume hs' =>
      rcases hs' with ⟨-, hannounce, -⟩ | ⟨-, hout, -⟩
      · have hhandle : Gateway.handle lex verify (a.setServer x).gateway (.announce t) =
            some (a'.gateway, out) := hannounce
        exact hgateway hhandle fun reply hne => by cases hne
      · exact hout ▸ rfl
  | restart heq hs' hout => exact hout ▸ rfl

/-- **The process over one Redis is the process over tables**, one step at a time. -/
def simulation (F : Format) (lex : Lexical) (hash : NodeContentOperationBody → String)
    (verify : String → Option UserId) :
    Simulation (step F lex hash verify) (observed F lex hash verify) (App.step lex verify hash)
      (appObserved F lex verify hash) where
  rel s a := ∃ T : Tables, F.Represents T s.taken s.store ∧ a = T.into s.app
  step := by
    rintro s a e s' ⟨T, h, rfl⟩ hstep
    rw [step_eq_some] at hstep
    rw [observed, both]
    generalize outputs F lex hash verify s e = out at hstep ⊢
    -- the tables may stay as they are, and the process over them need not move
    have hquiet (h' : F.Represents T s'.taken s'.store) (happ : s'.app = s.app) (hout : out = []) :
        ∃ es a', exec (App.step lex verify hash) (T.into s.app) es = some a' ∧
          trace (App.step lex verify hash) (appObserved F lex verify hash) (T.into s.app) es =
            out.map .inl ++ ([] : List App.Event).map .inr ∧
          ∃ T : Tables, F.Represents T s'.taken s'.store ∧ a' = T.into s'.app :=
      ⟨[], _, rfl, by rw [hout]; rfl, T, h', by rw [happ]⟩
    have hmoved (hanswered : Answered F lex hash verify T s s' out) :
        ∃ es a', exec (App.step lex verify hash) (T.into s.app) es = some a' ∧
          trace (App.step lex verify hash) (appObserved F lex verify hash) (T.into s.app) es =
            out.map .inl ++ ([] : List App.Event).map .inr ∧
          ∃ T : Tables, F.Represents T s'.taken s'.store ∧ a' = T.into s'.app := by
      obtain ⟨T', e', out', htold, hhandle, rfl, h'⟩ := hanswered
      have hsingle : App.step lex verify hash (T.into s.app) e' = some (T'.into s'.app) := by
        rw [App.step, hhandle]
        rfl
      refine ⟨[e'], _, exec_singleton hsingle, ?_, T', h', rfl⟩
      rw [trace_singleton hsingle, appObserved, both, listedOutputs, App.outputs, hhandle,
        List.filter_eq_nil_iff.mpr (by simp [htold])]
      rfl
    cases e with
    | app e =>
        simp only [handle] at hstep
        split at hstep
        · cases hstep
        · next hnone =>
            obtain ⟨⟨app, out'⟩, hhandle, heq⟩ := Option.map_eq_some_iff.mp hstep
            cases heq
            rw [Bool.or_eq_true, not_or] at hnone
            obtain ⟨nodes, hinto⟩ : ∃ nodes, App.handle lex verify hash (T.into s.app) e =
                (App.handle lex verify hash s.app e).map fun p =>
                  ({ T with nodes := nodes }.into p.1, p.2) :=
              handle_into (Bool.eq_false_iff.mpr hnone.1)
            have hhandle' : App.handle lex verify hash (T.into s.app) e =
                some ({ T with nodes := nodes }.into app, out') := by
              rw [hinto, hhandle]
              rfl
            have hsingle : App.step lex verify hash (T.into s.app) e =
                some ({ T with nodes := nodes }.into app) := by
              rw [App.step, hhandle']
              rfl
            refine ⟨[e], _, exec_singleton hsingle, ?_, { T with nodes := nodes }, h, rfl⟩
            rw [trace_singleton hsingle, appObserved, both, listedOutputs, App.outputs, hhandle',
              Option.map_some, Option.getD_some, relisted_of_handle (Bool.eq_false_iff.mpr hnone.1)
                hhandle']
            rfl
    | gatewayReply reply => exact hmoved (gatewayReply_answered h hstep)
    | managerReply reply =>
        obtain ⟨s₁, hreply, heq⟩ := Option.map_eq_some_iff.mp hstep
        cases heq
        exact hmoved (managerReply_answered h hreply)
    | callReply i reply =>
        obtain ⟨s₁, hreply, heq⟩ := Option.map_eq_some_iff.mp hstep
        cases heq
        exact hmoved (callReply_answered h hreply)
    | enqueued t reply =>
        obtain ⟨s₁, hreply, heq⟩ := Option.map_eq_some_iff.mp hstep
        cases heq
        exact hmoved (enqueued_answered h hreply)
    | attachmentsSynced save reply =>
        obtain ⟨s₁, hreply, heq⟩ := Option.map_eq_some_iff.mp hstep
        cases heq
        exact hmoved (attachmentsSynced_answered h hreply)
    | other key command =>
        simp only [handle] at hstep
        split at hstep
        · next hforeign =>
            cases hstep
            rw [Bool.and_eq_true, decide_eq_true_eq] at hforeign
            exact hquiet (represents_foreign h hforeign.1 hforeign.2) rfl rfl
        · cases hstep
    | takeJob =>
        obtain ⟨s₁, htake, heq⟩ := Option.map_eq_some_iff.mp hstep
        cases heq
        unfold takeJob at htake
        split at htake
        · next item items ttl hentry =>
            cases htake
            exact hquiet (represents_takeJob h hentry) rfl rfl
        · cases htake
    | lapse key =>
        obtain ⟨store, hlapse, heq⟩ := Option.map_eq_some_iff.mp hstep
        cases heq
        rcases lapse_answered h hlapse with h' | hanswered
        · exact hquiet h' rfl rfl
        · exact hmoved hanswered

/-- A store without keys represents empty tables. -/
theorem represents_init (F : Format) (nodes : NodeId → Option NodeRow)
    (memberships : UserId → WorkspaceId → Option Role) :
    ∃ T : Tables, F.Represents T (State.init nodes memberships).taken
        (State.init nodes memberships).store ∧
      App.State.init nodes memberships = T.into (State.init nodes memberships).app := by
  refine ⟨⟨fun _ => [], fun _ => none, fun _ => none, [], fun _ => none, nodes⟩, fun key => ?_, rfl⟩
  cases key with
  | WS_PRESENCE workspaceId => exact ⟨none, rfl⟩
  | NODE_CONTENT_OPERATION cacheKey => exact ⟨rfl, fun e he => by cases he⟩
  | EMBED_JOBS_QUEUE => exact ⟨[], rfl, rfl⟩
  | YJS_DOC nodeId => rfl
  | YJS_WS_AWARENESS workspaceId => rfl
  | _ => trivial

/-- Each run is a run over tables in which the same is observed. -/
theorem observed_of_exec (F : Format) (lex : Lexical) (hash : NodeContentOperationBody → String)
    (verify : String → Option UserId) (nodes : NodeId → Option NodeRow)
    (memberships : UserId → WorkspaceId → Option Role) {es : List Event} {s : State}
    (hes : exec (step F lex hash verify) (.init nodes memberships) es = some s) :
    ∃ (fs : List App.Event) (T : Tables),
      exec (App.step lex verify hash) (.init nodes memberships) fs = some (T.into s.app) ∧
      trace (App.step lex verify hash) (appObserved F lex verify hash) (.init nodes memberships)
          fs =
        trace (step F lex hash verify) (observed F lex hash verify) (.init nodes memberships) es ∧
      F.Represents T s.taken s.store := by
  obtain ⟨fs, a, hfs, htrace, T, h, rfl⟩ := (simulation F lex hash verify).exec
    (represents_init F nodes memberships) hes
  exact ⟨fs, T, hfs, htrace, h⟩

/-- **The process over one Redis is the process over tables**: each of its runs is a run
over tables that sends the same, and at its end the store holds what the tables say. -/
theorem refines (F : Format) (lex : Lexical) (hash : NodeContentOperationBody → String)
    (verify : String → Option UserId) (nodes : NodeId → Option NodeRow)
    (memberships : UserId → WorkspaceId → Option Role) {es : List Event} {s : State}
    (hes : exec (step F lex hash verify) (.init nodes memberships) es = some s) :
    ∃ (fs : List App.Event) (T : Tables),
      exec (App.step lex verify hash) (.init nodes memberships) fs = some (T.into s.app) ∧
      trace (App.step lex verify hash) (listedOutputs F lex verify hash) (.init nodes memberships)
          fs =
        trace (step F lex hash verify) (outputs F lex hash verify) (.init nodes memberships) es ∧
      F.Represents T s.taken s.store := by
  obtain ⟨fs, T, hfs, htrace, h⟩ := observed_of_exec F lex hash verify nodes memberships hes
  exact ⟨fs, T, hfs, trace_left_of_both htrace, h⟩

/-! ### A run -/

/-- A user joins the workspace, while the API server keeps a token of theirs. -/
def joinedRun : List Event :=
  [.app (.gateway (.connect (some "token of 9"))),
    .app (.gateway (.joinWorkspace 0 7 "" "" none)), .app (.gateway (.membershipReply 0 true)),
    .gatewayReply .ok, .gatewayReply .ok,
    .other (.MASTER_TOKEN "9") (.set (plainFormat.key (.MASTER_TOKEN "9")) "token of 9" 60 false),
    .gatewayReply .ok, .gatewayReply .ok]

theorem joinedRun_refines :
    ∃ s, exec (step plainFormat .plain (fun _ => "") Gateway.plainToken)
        (.init (fun _ => none) (Gateway.members [(9, 7, .EDITOR)])) joinedRun = some s ∧
      ∃ (fs : List App.Event) (T : Tables),
        exec (App.step .plain Gateway.plainToken fun _ => "")
          (.init (fun _ => none) (Gateway.members [(9, 7, .EDITOR)])) fs = some (T.into s.app) ∧
        trace (App.step .plain Gateway.plainToken fun _ => "")
            (listedOutputs plainFormat .plain Gateway.plainToken fun _ => "")
            (.init (fun _ => none) (Gateway.members [(9, 7, .EDITOR)])) fs =
          trace (step plainFormat .plain (fun _ => "") Gateway.plainToken)
            (outputs plainFormat .plain (fun _ => "") Gateway.plainToken)
            (.init (fun _ => none) (Gateway.members [(9, 7, .EDITOR)])) joinedRun ∧
        plainFormat.Represents T s.taken s.store := by
  have hsome : (exec (step plainFormat .plain (fun _ => "") Gateway.plainToken)
      (.init (fun _ => none) (Gateway.members [(9, 7, .EDITOR)])) joinedRun).isSome = true := by
    decide +kernel
  obtain ⟨s, hs⟩ := Option.isSome_iff_exists.mp hsome
  exact ⟨s, hs, refines plainFormat .plain (fun _ => "") Gateway.plainToken _ _ hs⟩

end Process

end AideepWebsocket.Redis
