import AideepWebsocket.DocManager.State
import AideepWebsocket.Library.Run

/-!
# The methods of YjsDocManager, cut at their awaits

Each definition is the code of a method between two suspension points.  The
events of `step` are the points at which the event loop enters the manager
again: a call from outside, a timer, a reply of Redis or of the database, or the
resumption of a method whose awaited promise has settled.

`Lexical` holds what the manager uses of the Lexical packages through
`markdown-yjs.ts`; a function that may throw returns `none` when it does.
-/

namespace AideepWebsocket

open Library

/-- The result of `appendMarkdownToYjsDoc`: the changes it makes to the document
and the markdown it returns. -/
structure AppendResult where
  added : YDoc
  markdown : String
  deriving DecidableEq

/-- The functions of `markdown-yjs.ts` that the manager and `YjsCrdtService`
call.  The client id is the random one of the `Y.Doc` that is written to.  What
an export returns may also depend on what has been read of the document before;
`stepWith` gives each step answers of its own. -/
structure Lexical where
  /-- `doc.get('root', Y.XmlText).toString()` -/
  rootText : YDoc → String
  /-- `yjsDocToMarkdown` -/
  toMarkdown : YDoc → Option String
  /-- `yjsDocToAttachmentContent`, serialised -/
  attachmentContent : YDoc → Option String
  /-- `appendMarkdownToYjsDoc` -/
  append : ClientId → YDoc → String → Option AppendResult
  /-- `markdownToYjsUpdate` -/
  bootstrap : ClientId → String → YDoc

/-- Conversions for evaluating runs: nothing is exported, and an append adds the
next struct of its client. -/
def Lexical.plain : Lexical where
  rootText _ := ""
  toMarkdown _ := some ""
  attachmentContent _ := some "{}"
  append clientId doc markdown :=
    let clock := (doc.structs.filter fun id => id.1 = clientId).card
    some ⟨⟨{(clientId, clock)}, ∅⟩, markdown⟩
  bootstrap clientId _ := ⟨{(clientId, 0)}, ∅⟩

namespace DocManager

variable (lex : Lexical)

/-- `FLUSH_CONCURRENCY`. -/
def FLUSH_CONCURRENCY : ℕ := 4

namespace State

/-- Issue a Redis command. -/
def issue (s : State) (cmd : RedisCommand) : State :=
  { s with redis := { s.redis with commands := s.redis.commands ++ [cmd] } }

def setTask (s : State) (t : TaskId) (x : Task) : State :=
  { s with queue := s.queue.advance t x }

/-- The promise of task `t` settles. -/
def settle (s : State) (t : TaskId) (x : Task) (result : Except Failure Persisted) : State :=
  s.setTask t { x with phase := .settled result }

/-! ### Loading -/

/-- `getOrCreateDoc`, up to its await. -/
def getOrCreateDoc (s : State) (nodeId : NodeId) (workspaceId : WorkspaceId) :
    State × Await :=
  match s.mem.docs nodeId with
  | some r => ({ s with mem := s.mem.cancelIdle r }, .ready r)
  | none =>
      match s.loader.loading nodeId with
      | some l => (s, .load l false)
      | none =>
          let l := s.loader.nextLoad
          let loader := { s.loader with
            loads := Function.update s.loader.loads l
              (some ⟨nodeId, workspaceId, .loadFromRedis⟩)
            loading := Function.update s.loader.loading nodeId (some l)
            nextLoad := l + 1 }
          ({ s with loader := loader }.issue (.get l), .load l true)

/-- The value of an awaited `getOrCreateDoc`, once it is there. -/
def awaited (s : State) : Await → Option (Except Failure DocRef)
  | .ready r => some (.ok r)
  | .load l _ =>
      match (s.loader.loads l).map Load.phase with
      | some (.resolved r) => some (.ok r)
      | some (.rejected e) => some (.error e)
      | _ => none

/-- The `finally` of `getOrCreateDoc`: the caller that started the load removes
it from `loading`. -/
def finishAwait (s : State) (nodeId : NodeId) : Await → State
  | .load _ true =>
      { s with loader := { s.loader with
          loading := Function.update s.loader.loading nodeId none } }
  | _ => s

/-- A caller outside the queue awaits `getOrCreateDoc`. -/
def addGet (s : State) (nodeId : NodeId) (await : Await) : State :=
  { s with loader := { s.loader with
      gets := Function.update s.loader.gets s.loader.nextGet (some ⟨nodeId, await⟩)
      nextGet := s.loader.nextGet + 1 } }

/-- Such a caller has resumed. -/
def removeGet (s : State) (get : ℕ) : State :=
  { s with loader := { s.loader with gets := Function.update s.loader.gets get none } }

/-- The end of `loadDoc`: the state, if there is one, is applied to the new
document, and the document is put into `docs`. -/
def finishLoad (s : State) (l : LoadId) (x : Load) (state : Option YDoc)
    (workspaceId : WorkspaceId) : State :=
  let doc := (state.map fun u => applyUpdate ⊥ u).getD ⊥
  { s with
    mem := s.mem.put x.nodeId (ManagedDoc.loaded doc workspaceId)
    loader := s.loader.setPhase l (.resolved s.mem.nextRef) }

/-- `loadFromDb`: the stored state, or a state made from `markdownBody`, or
nothing. -/
def loadFromDb (s : State) (nodeId : NodeId) (clientId : ClientId) : Option DbResult :=
  (s.nodes nodeId).map fun row =>
    match row.yjsState with
    | some state => ⟨some state, row.workspaceId⟩
    | none =>
        match row.content.bind NodeContent.markdownBody with
        | some body =>
            if body = "" then ⟨none, row.workspaceId⟩
            else ⟨some (lex.bootstrap clientId body), row.workspaceId⟩
        | none => ⟨none, row.workspaceId⟩

/-- `loadDoc` resumes after a reply of Redis or of the database. -/
def continueLoad (s : State) (l : LoadId) : Option State :=
  match s.loader.loads l with
  | none => none
  | some x =>
      match x.phase with
      | .redisAnswered (some state) => some (s.finishLoad l x (some state) x.workspaceId)
      | .redisAnswered none =>
          some { s with loader := s.loader.setPhase l .loadFromDb }
      | .dbAnswered (some ⟨some state, workspaceId⟩) =>
          some (s.finishLoad l x (some state) workspaceId)
      | .dbAnswered _ => some (s.finishLoad l x none x.workspaceId)
      | _ => none

/-- `findUnique` of `loadFromDb` answers, or rejects. -/
def dbReply (s : State) (l : LoadId) (ok : Bool) (clientId : ClientId) : Option State :=
  match s.loader.loads l with
  | some ⟨nodeId, _, .loadFromDb⟩ =>
      let phase := if ok then .dbAnswered (s.loadFromDb lex nodeId clientId)
        else .rejected .database
      some { s with loader := s.loader.setPhase l phase }
  | _ => none

/-! ### The queue of a node -/

/-- `runExclusive`, up to its await. -/
def runExclusive (s : State) (nodeId : NodeId) (kind : TaskKind) : State :=
  { s with queue := s.queue.submit nodeId { kind := kind, phase := .queued } rfl }

/-- `flushDoc`, called by `caller`. -/
def flushDoc (s : State) (nodeId : NodeId) (caller : FlushCaller) : State :=
  s.runExclusive nodeId (.flushDoc caller)

/-- `removeClient`: when the last client has left, flush, and arm the idle
timer. -/
def removeClient (s : State) (nodeId : NodeId) (socketId : SocketId) : State :=
  match s.mem.docs nodeId with
  | none => s
  | some r =>
      let mem := s.mem.modify r fun d => { d with clients := d.clients.erase socketId }
      if (mem.heap r).clients = ∅ then
        { s.flushDoc nodeId .lastLeave with
          mem := (mem.setTimeout (.idle nodeId)).modify r fun d =>
            { d with idleTimer := some mem.nextTimer } }
      else { s with mem := mem }

/-- `cleanupNode`, up to its await. -/
def cleanupNode (s : State) (nodeId : NodeId) : State :=
  { s with mem := s.mem.drop nodeId }.issue (.del nodeId)

/-- `handleFlushError`. -/
def handleFlushError (s : State) (nodeId : NodeId) : Failure → State
  | .nodeGone _ => s.cleanupNode nodeId
  | _ => s

/-- One turn of the loop of a `flushAll` worker: it flushes the next node, or
ends. -/
def nextFlush (s : State) (call : ℕ) : State :=
  match s.flushAlls call with
  | none => s
  | some c =>
      match c.nodeIds[c.cursor]? with
      | some nodeId =>
          let c' := { c with cursor := c.cursor + 1 }
          let s' := { s with flushAlls := Function.update s.flushAlls call (some c') }
          s'.flushDoc nodeId (.flushAll call)
      | none =>
          let c' := { c with workers := c.workers - 1 }
          { s with flushAlls := Function.update s.flushAlls call (some c') }

/-- `flushAll`, up to its await: at most `FLUSH_CONCURRENCY` workers start, each
with one node. -/
def flushAll (s : State) : State :=
  let call := s.nextFlushAll
  let workers := min FLUSH_CONCURRENCY s.mem.keys.length
  let s' := { s with
    flushAlls := Function.update s.flushAlls call (some ⟨s.mem.keys, 0, workers⟩)
    nextFlushAll := call + 1 }
  (fun s => s.nextFlush call)^[workers] s'

/-! ### Flushing -/

/-- `flushDocLocked`, up to its first await, run by task `t`. -/
def flushDocLocked (s : State) (t : TaskId) (x : Task) (nodeId : NodeId)
    (knownMarkdown : Option String) : State :=
  match s.mem.docs nodeId with
  | none => s.settle t x (.error (.docNotLoaded nodeId))
  | some r =>
      let d := s.mem.heap r
      let mem := (s.mem.clearTimeout d.saveTimer).modify r fun d =>
        { d with saveTimer := none }
      let state := encodeStateAsUpdate d.doc
      let stateVector := encodeStateVector d.doc
      let x := { x with captured := some state }
      if d.unchanged then
        -- only the TTL of the cache is refreshed
        ({ s with mem := mem.modify r fun d => { d with dirtyForEmbed := false } }.issue
          (.set nodeId state t)).setTask t
            { x with phase := .refreshing r (d.lastPersisted.getD default) none }
      else
        match knownMarkdown.orElse fun _ => lex.toMarkdown d.doc with
        | none => { s with mem := mem }.settle t x (.error .lexical)
        | some structuredMarkdown =>
            let markdownText :=
              if structuredMarkdown = "" then lex.rootText d.doc else structuredMarkdown
            let s' := { s with mem := mem }.issue (.set nodeId state t)
            match lex.attachmentContent d.doc with
            | none => s'.settle t x (.error .lexical)
            | some attachmentContent =>
                { s' with
                  saves := Function.update s'.saves s'.nextSave
                    (some ⟨nodeId, t, r, state, markdownText, d.workspaceId,
                      attachmentContent, .updateNodeRow⟩)
                  nextSave := s'.nextSave + 1 }.setTask t
                    { x with phase := .saving r s'.nextSave stateVector none none }

/-- The task at the head of its queue starts. -/
def startTask (s : State) (t : TaskId) : Option State :=
  match s.queue.task t with
  | none => none
  | some e =>
      match e.payload.phase with
      | .queued =>
          if s.queue.ready e then
            match e.payload.kind with
            | .flushDoc _ => some (s.flushDocLocked lex t e.payload e.key none)
            | .appendMarkdown workspaceId _ _ =>
                let (s', await) := s.getOrCreateDoc e.key workspaceId
                some (s'.setTask t { e.payload with phase := .loadingDoc await })
          else none
      | _ => none

/-- `appendMarkdown` resumes with the document: it appends, marks the entry of
the node, and flushes. -/
def resumeAppend (s : State) (t : TaskId) (clientId : ClientId) : Option State :=
  match s.queue.task t with
  | none => none
  | some e =>
      match e.payload.phase, e.payload.kind with
      | .loadingDoc await, .appendMarkdown _ markdown userId =>
          match s.awaited await with
          | none => none
          | some (.error failure) =>
              some ((s.finishAwait e.key await).settle t e.payload (.error failure))
          | some (.ok r) =>
              let s' := s.finishAwait e.key await
              let doc := (s.mem.heap r).doc
              match lex.append clientId doc markdown with
              | none => some (s'.settle t e.payload (.error .lexical))
              | some result =>
                  let doc' := applyUpdate doc result.added
                  let update := encodeStateAsUpdate doc' (encodeStateVector doc)
                  let x := { e.payload with inserted := some result.added, update := some update }
                  let mem := s'.mem.modify r fun d => { d with doc := doc' }
                  match mem.docs e.key with
                  | none => some ({ s' with mem := mem }.settle t x (.error .undefinedEntry))
                  | some r' =>
                      let mem := mem.modify r' fun d =>
                        { d with dirtyForEmbed := true, lastEditorUserId := some userId }
                      some ({ s' with mem := mem }.flushDocLocked lex t x e.key
                        (some result.markdown))
      | _, _ => none

/-- `flushDocLocked` resumes after `saveToRedis`, or after `Promise.all`: that
promise rejects as soon as one of its two does. -/
def continueFlush (s : State) (t : TaskId) : Option State :=
  match s.queue.task t with
  | none => none
  | some e =>
      match e.payload.phase with
      | .refreshing _ persisted (some true) => some (s.settle t e.payload (.ok persisted))
      | .refreshing _ _ (some false) => some (s.settle t e.payload (.error .redis))
      | .saving _ _ _ _ (some failure) => some (s.settle t e.payload (.error failure))
      | .saving r save stateVector (some true) none =>
          match (s.saves save).map SaveCall.phase with
          | some (.resolved persisted) =>
              let mem := s.mem.modify r fun d =>
                { d with
                  lastSavedStateVector := some stateVector
                  lastPersisted := some persisted }
              let d := mem.heap r
              match d.dirtyForEmbed, d.lastEditorUserId with
              | true, some userId =>
                  some ({ s with mem := mem.modify r fun d =>
                      { d with dirtyForEmbed := false } }.setTask t
                    { e.payload with
                      phase := .embedding r persisted ⟨e.key, userId, d.workspaceId⟩ })
              | _, _ => some ({ s with mem := mem }.settle t e.payload (.ok persisted))
          | _ => none
      | _ => none

/-- `enqueueEmbedJob` ends; it never rejects. -/
def enqueued (s : State) (t : TaskId) (ok : Bool) : Option State :=
  match s.queue.task t with
  | none => none
  | some e =>
      match e.payload.phase with
      | .embedding _ persisted job =>
          some ({ s with embedJobs := if ok then s.embedJobs ++ [job] else s.embedJobs }.settle
            t e.payload (.ok persisted))
      | _ => none

/-- The caller of `runExclusive` resumes: the `finally`, and then what the
caller does with the result. -/
def resumeTask (s : State) (t : TaskId) : Option State :=
  match s.queue.task t with
  | none => none
  | some e =>
      match e.payload.phase with
      | .settled result =>
          let s' := { s with queue := s.queue.dropTail t }.setTask t
            { e.payload with phase := .returned result }
          match e.payload.kind with
          | .appendMarkdown _ _ _ => some s'
          | .flushDoc caller =>
              let s'' := match result with
                | .error failure => s'.handleFlushError e.key failure
                | .ok _ => s'
              match caller with
              | .flushAll call => some (s''.nextFlush call)
              | _ => some s''
      | _ => none

/-! ### The stores -/

/-- A call of Redis returns to the task that awaits it. -/
def saveToRedisReply (s : State) (t : TaskId) (ok : Bool) : State :=
  match s.queue.task t with
  | none => s
  | some e =>
      match e.payload.phase with
      | .refreshing r persisted none =>
          s.setTask t { e.payload with phase := .refreshing r persisted (some ok) }
      | .saving r save stateVector none failure =>
          s.setTask t { e.payload with
            phase := .saving r save stateVector (some ok)
              (if ok then failure else failure.orElse fun _ => some .redis) }
      | _ => s

/-- The oldest Redis command ends with `reply`; a `GET` that rejects is read as
a miss. -/
def redisReply (s : State) (reply : Reply) : Option State :=
  match s.redis.commands with
  | [] => none
  | cmd :: rest =>
      let s' := { s with redis := { s.redis with commands := rest } }
      match cmd with
      | .get l =>
          match s.loader.loads l with
          | some ⟨nodeId, _, .loadFromRedis⟩ =>
              let state :=
                if reply = .ok then (s.redis.store nodeId).map Cached.state else none
              some { s' with loader := s.loader.setPhase l (.redisAnswered state) }
          | _ => some s'
      | .set nodeId state t =>
          let store :=
            if reply.executed then Function.update s.redis.store nodeId (some ⟨state, t⟩)
            else s.redis.store
          let s' := { s with redis := ⟨store, rest⟩ }
          some (s'.saveToRedisReply t (reply = .ok))
      | .del nodeId =>
          let store :=
            if reply.executed then Function.update s.redis.store nodeId none
            else s.redis.store
          some { s with redis := ⟨store, rest⟩ }

/-- The call `save` goes on to `phase`. -/
def setSave (s : State) (save : SaveId) (c : SaveCall) (phase : SavePhase) : State :=
  { s with saves := Function.update s.saves save (some { c with phase := phase }) }

/-- `saveToDb` rejects, and the task learns it if it still awaits the call. -/
def rejectSave (s : State) (save : SaveId) (c : SaveCall) (committed : Bool)
    (failure : Failure) : State :=
  let s' := s.setSave save c (.rejected committed)
  match s.queue.task c.task with
  | none => s'
  | some e =>
      match e.payload.phase with
      | .saving r save' stateVector redis first =>
          if save' = save then
            s'.setTask c.task { e.payload with
              phase := .saving r save' stateVector redis
                (first.orElse fun _ => some failure) }
          else s'
      | _ => s'

/-- The row that `updateNodeRow` leaves: it is overwritten, and `content` keeps
its other keys. -/
def writtenRow (row : NodeRow) (c : SaveCall) (now : ℕ) : NodeRow :=
  let content := row.content.getD ⟨none, none, []⟩
  { row with
    yjsState := some c.state
    content := some { content with markdownBody := some c.markdownText }
    version := row.version + 1
    updatedAt := now }

/-- The transaction of `updateNodeRow` commits, or rolls back. -/
def updateNodeRow (s : State) (save : SaveId) (reply : Reply) (now : ℕ) : Option State :=
  match s.saves save with
  | none => none
  | some c =>
      match c.phase with
      | .updateNodeRow =>
          if reply.executed then
            match s.nodes c.nodeId with
            | none => some (s.rejectSave save c false (.nodeGone c.nodeId))
            | some row =>
                let row' := writtenRow row c now
                let s' := { s with nodes := Function.update s.nodes c.nodeId (some row') }
                if reply = .ok then
                  some (s'.setSave save c (.syncNodeAttachments ⟨row'.version, now⟩))
                else some (s'.rejectSave save c true .database)
          else some (s.rejectSave save c false .database)
      | _ => none

/-- `syncNodeAttachments` ends, after the row has been committed. -/
def attachmentsSynced (s : State) (save : SaveId) (ok : Bool) : Option State :=
  match s.saves save with
  | none => none
  | some c =>
      match c.phase with
      | .syncNodeAttachments persisted =>
          if ok then some (s.setSave save c (.resolved persisted))
          else some (s.rejectSave save c true .database)
      | _ => none

/-! ### Timers, shutdown, restart -/

/-- A timer fires. -/
def fireTimer (s : State) (timer : TimerId) : Option State :=
  match s.mem.timers timer with
  | none => none
  | some kind =>
      let s' := { s with mem := s.mem.clearTimeout (some timer) }
      match kind with
      | .save nodeId => some (s'.flushDoc nodeId .saveTimer)
      | .idle nodeId => some { s' with mem := s'.mem.evictDoc nodeId }

/-- `onModuleDestroy`, up to its await. -/
def onModuleDestroy (s : State) : State :=
  { s.flushAll with shutdown := .flushing s.nextFlushAll }

/-- The rest of `onModuleDestroy`, once its `flushAll` has resolved. -/
def finishDestroy (s : State) : Option State :=
  match s.shutdown with
  | .flushing call =>
      match (s.flushAlls call).map FlushAllCall.workers with
      | some 0 => some { s with mem := s.mem.clear, shutdown := .done }
      | _ => none
  | _ => none

/-- What is left of a task when its process is gone. -/
def goneTask (x : Task) : Task :=
  match x.phase with
  | .returned _ => x
  | .settled result => { x with phase := .returned result }
  | _ => { x with phase := .returned (.error .processGone) }

theorem stage_goneTask (x : Task) : (goneTask x).stage = .settled := by
  unfold goneTask
  split
  · next h => simp [Task.stage, h, Phase.stage]
  · rfl
  · rfl

theorem kind_goneTask (x : Task) : (goneTask x).kind = x.kind := by
  unfold goneTask
  split <;> rfl

/-- The process ends, with whatever it had not finished, and a new one starts.
The stores stay. -/
def restart (s : State) : State where
  mem := { Memory.init with heap := s.mem.heap, nextRef := s.mem.nextRef,
                            nextTimer := s.mem.nextTimer }
  loader := { Loader.init with nextLoad := s.loader.nextLoad, nextGet := s.loader.nextGet }
  queue := s.queue.abort goneTask stage_goneTask
  saves save := (s.saves save).map fun c =>
    if c.phase.pending then { c with phase := .rejected c.phase.committed } else c
  nextSave := s.nextSave
  redis := { s.redis with commands := [] }
  nodes := s.nodes
  embedJobs := s.embedJobs
  flushAlls _ := none
  nextFlushAll := s.nextFlushAll
  shutdown := .no

end State

/-! ### The step function -/

/-- How the event loop may enter the manager, or the world outside may move. -/
inductive Event
  | getOrCreateDoc (nodeId : NodeId) (workspaceId : WorkspaceId)
  | resumeGet (get : ℕ)
  | addClient (nodeId : NodeId) (socketId : SocketId)
  | removeClient (nodeId : NodeId) (socketId : SocketId)
  | applyToDoc (nodeId : NodeId) (update : YDoc)
  | scheduleSave (nodeId : NodeId) (userId : Option UserId)
  | appendMarkdown (nodeId : NodeId) (workspaceId : WorkspaceId) (markdown : String)
      (userId : UserId)
  | cleanupNode (nodeId : NodeId)
  | flushInterval
  | onModuleDestroy
  | finishDestroy
  | fireTimer (timer : TimerId)
  | continueLoad (l : LoadId)
  | dbReply (l : LoadId) (ok : Bool) (clientId : ClientId)
  | startTask (t : TaskId)
  | resumeAppend (t : TaskId) (clientId : ClientId)
  | continueFlush (t : TaskId)
  | enqueued (t : TaskId) (ok : Bool)
  | resumeTask (t : TaskId)
  | redisReply (reply : Reply)
  | redisExpire (nodeId : NodeId)
  | updateNodeRow (save : SaveId) (reply : Reply) (now : ℕ)
  | attachmentsSynced (save : SaveId) (ok : Bool)
  /-- Another writer of the `nodes` table; none of them touches `yjs_state`. -/
  | writeNode (nodeId : NodeId) (row : NodeRow)
  | deleteNode (nodeId : NodeId)
  | restart
  deriving DecidableEq

/-- The row that another writer may leave: `yjs_state` as it was. -/
def otherWriter (old : Option NodeRow) (row : NodeRow) : Bool :=
  row.yjsState = old.bind NodeRow.yjsState

open State in
/-- One step of the manager. -/
def step (s : State) : Event → Option State
  | .getOrCreateDoc nodeId workspaceId =>
      let (s', await) := s.getOrCreateDoc nodeId workspaceId
      some (s'.addGet nodeId await)
  | .resumeGet get =>
      match s.loader.gets get with
      | none => none
      | some c =>
          match s.awaited c.await with
          | none => none
          | some _ => some ((s.finishAwait c.nodeId c.await).removeGet get)
  | .addClient nodeId socketId => some { s with mem := s.mem.addClient nodeId socketId }
  | .removeClient nodeId socketId => some (s.removeClient nodeId socketId)
  | .applyToDoc nodeId update => some { s with mem := s.mem.applyToDoc nodeId update }
  | .scheduleSave nodeId userId => some { s with mem := s.mem.scheduleSave nodeId userId }
  | .appendMarkdown nodeId workspaceId markdown userId =>
      some (s.runExclusive nodeId (.appendMarkdown workspaceId markdown userId))
  | .cleanupNode nodeId => some (s.cleanupNode nodeId)
  | .flushInterval => if s.shutdown = .no then some s.flushAll else none
  | .onModuleDestroy => if s.shutdown = .no then some s.onModuleDestroy else none
  | .finishDestroy => s.finishDestroy
  | .fireTimer timer => s.fireTimer timer
  | .continueLoad l => s.continueLoad l
  | .dbReply l ok clientId => s.dbReply lex l ok clientId
  | .startTask t => s.startTask lex t
  | .resumeAppend t clientId => s.resumeAppend lex t clientId
  | .continueFlush t => s.continueFlush t
  | .enqueued t ok => s.enqueued t ok
  | .resumeTask t => s.resumeTask t
  | .redisReply reply => s.redisReply reply
  | .redisExpire nodeId =>
      some { s with redis := { s.redis with
        store := Function.update s.redis.store nodeId none } }
  | .updateNodeRow save reply now => s.updateNodeRow save reply now
  | .attachmentsSynced save ok => s.attachmentsSynced save ok
  | .writeNode nodeId row =>
      if otherWriter (s.nodes nodeId) row then
        some { s with nodes := Function.update s.nodes nodeId (some row) }
      else none
  | .deleteNode nodeId =>
      some { s with nodes := Function.update s.nodes nodeId none }
  | .restart => some s.restart

/-! ### Pieces of runs

The results about runs are tried on the node `1`, which user `9` edits through
socket `5`. -/

/-- A table with one empty node. -/
def oneNode (n : NodeId) : Option NodeRow :=
  if n = 1 then some ⟨none, none, 0, 0, 7, none⟩ else none

/-- The document is loaded from the empty stores. -/
def openNode : List Event :=
  [.getOrCreateDoc 1 7, .redisReply .ok, .continueLoad 0, .dbReply 0 true 0, .continueLoad 0,
    .resumeGet 0, .addClient 1 5]

/-- An edit, and the debounced flush that starts as task `t`. -/
def editAndFlush (u : YDoc) (timer : TimerId) (t : TaskId) : List Event :=
  [.applyToDoc 1 u, .scheduleSave 1 (some 9), .fireTimer timer, .startTask t]

/-- Both stores answer, and the flush ends. -/
def flushSaved (t : TaskId) (save : SaveId) : List Event :=
  [.redisReply .ok, .updateNodeRow save .ok 10, .attachmentsSynced save true, .continueFlush t,
    .enqueued t true, .resumeTask t]

end DocManager

end AideepWebsocket
