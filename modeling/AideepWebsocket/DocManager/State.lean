import AideepWebsocket.Library.PromiseChain
import AideepWebsocket.Yjs.Doc
import Mathlib.Data.Finset.Basic

/-!
# The state of YjsDocManager and of the stores it writes

`YjsDocManager` is a single-threaded object whose methods are suspended at every
`await`.  The state below is what exists *between* two such points: the maps of
the manager, the promises that are pending, the timers that are live, and the
two stores behind `YjsCrdtService`.

* `Memory` — the `docs` map with the objects it refers to, and the timers.  An
  entry of `docs` is a reference: a flush keeps its reference across its awaits,
  so it may write to an object that has left the map.
* `Loader` — the `loading` map and the running `loadDoc` calls.
* `queue` — the `operations` map and the tasks submitted to `runExclusive`.
* `saves` — the `saveToDb` calls; one may outlive the flush that started it.
* `Redis` — the `yjs:doc:*` keys and the commands issued but not yet executed.
  The process talks to Redis over one connection, so commands are executed in
  the order in which they were issued.
* `nodes` — the rows of the `nodes` table.

Identifiers are opaque to the code, which only compares them; they are natural
numbers here.  Fields that are written and never read (`lastActivity`) and the
log are left out.
-/

namespace AideepWebsocket

open Library

abbrev NodeId := ℕ
abbrev WorkspaceId := ℕ
abbrev SocketId := ℕ
abbrev UserId := ℕ

namespace DocManager

/-- The address of a managed object. -/
abbrev DocRef := ℕ
abbrev TimerId := ℕ
abbrev LoadId := ℕ
abbrev TaskId := ℕ
abbrev SaveId := ℕ

/-- What a save returns: the version and `updated_at` of the row. -/
structure Persisted where
  version : ℕ
  updatedAt : ℕ
  deriving DecidableEq, Inhabited

/-- `interface ManagedDoc`. -/
structure ManagedDoc where
  doc : YDoc
  clients : Finset SocketId
  workspaceId : WorkspaceId
  saveTimer : Option TimerId
  idleTimer : Option TimerId
  dirtyForEmbed : Bool
  lastEditorUserId : Option UserId
  lastSavedStateVector : Option StateVector
  lastPersisted : Option Persisted
  deriving DecidableEq, Inhabited

/-- The entry that `loadDoc` creates. -/
def ManagedDoc.loaded (doc : YDoc) (workspaceId : WorkspaceId) : ManagedDoc where
  doc := doc
  clients := ∅
  workspaceId := workspaceId
  saveTimer := none
  idleTimer := none
  dirtyForEmbed := false
  lastEditorUserId := none
  lastSavedStateVector := none
  lastPersisted := none

/-- The test with which a flush decides that nothing has to be saved:
`lastPersisted && lastSavedStateVector?.equals(stateVector)`. -/
def ManagedDoc.unchanged (d : ManagedDoc) : Bool :=
  d.lastPersisted.isSome && d.lastSavedStateVector == some (encodeStateVector d.doc)

/-! ### Memory: `docs`, the objects, the timers -/

/-- The callback of a timer. -/
inductive Timer
  | save (nodeId : NodeId)
  | idle (nodeId : NodeId)
  deriving DecidableEq

/-- The `docs` map, with its keys in the order of their insertion, the objects
it refers to, and the live timers. -/
structure Memory where
  docs : NodeId → Option DocRef
  keys : List NodeId
  heap : DocRef → ManagedDoc
  timers : TimerId → Option Timer
  nextRef : ℕ
  nextTimer : ℕ

namespace Memory

/-- A process that has just started. -/
def init : Memory where
  docs _ := none
  keys := []
  heap _ := default
  timers _ := none
  nextRef := 0
  nextTimer := 0

/-- `docs.get(nodeId)`. -/
def get (m : Memory) (nodeId : NodeId) : Option ManagedDoc := (m.docs nodeId).map m.heap

/-- Assign to fields of the object at `r`. -/
def modify (m : Memory) (r : DocRef) (f : ManagedDoc → ManagedDoc) : Memory :=
  { m with heap := Function.update m.heap r (f (m.heap r)) }

def clearTimeout (m : Memory) : Option TimerId → Memory
  | none => m
  | some t => { m with timers := Function.update m.timers t none }

/-- `setTimeout`; the new handle is `m.nextTimer`. -/
def setTimeout (m : Memory) (timer : Timer) : Memory :=
  { m with
    timers := Function.update m.timers m.nextTimer (some timer)
    nextTimer := m.nextTimer + 1 }

/-- `docs.set(nodeId, entry)` with a new object. -/
def put (m : Memory) (nodeId : NodeId) (entry : ManagedDoc) : Memory :=
  { m with
    docs := Function.update m.docs nodeId (some m.nextRef)
    keys := if nodeId ∈ m.keys then m.keys else m.keys ++ [nodeId]
    heap := Function.update m.heap m.nextRef entry
    nextRef := m.nextRef + 1 }

/-- `docs.delete(nodeId)` after clearing both timers of the entry. -/
def drop (m : Memory) (nodeId : NodeId) : Memory :=
  match m.docs nodeId with
  | none => m
  | some r =>
      let m' := (m.clearTimeout (m.heap r).saveTimer).clearTimeout (m.heap r).idleTimer
      { m' with
        docs := Function.update m'.docs nodeId none
        keys := m'.keys.erase nodeId }

/-- The branch of `getOrCreateDoc` for a managed node: the idle timer is
cancelled. -/
def cancelIdle (m : Memory) (r : DocRef) : Memory :=
  match (m.heap r).idleTimer with
  | none => m
  | some t => (m.clearTimeout (some t)).modify r fun d => { d with idleTimer := none }

/-- `YjsDocManager.addClient`. -/
def addClient (m : Memory) (nodeId : NodeId) (socketId : SocketId) : Memory :=
  match m.docs nodeId with
  | none => m
  | some r => m.modify r fun d => { d with clients := insert socketId d.clients }

/-- `Y.applyUpdate(getDoc(nodeId), update)`, as `readSyncMessage` does it: the
manager itself is not told. -/
def applyToDoc (m : Memory) (nodeId : NodeId) (update : YDoc) : Memory :=
  match m.docs nodeId with
  | none => m
  | some r => m.modify r fun d => { d with doc := applyUpdate d.doc update }

/-- `YjsDocManager.scheduleSave`. -/
def scheduleSave (m : Memory) (nodeId : NodeId) (userId : Option UserId) : Memory :=
  match m.docs nodeId with
  | none => m
  | some r =>
      ((m.clearTimeout (m.heap r).saveTimer).setTimeout (.save nodeId)).modify r fun d =>
        { d with
          dirtyForEmbed := true
          lastEditorUserId := userId.orElse fun _ => d.lastEditorUserId
          saveTimer := some m.nextTimer }

/-- `YjsDocManager.applyUpdate`. -/
def applyUpdate (m : Memory) (nodeId : NodeId) (update : YDoc) (userId : Option UserId) :
    Memory :=
  (m.applyToDoc nodeId update).scheduleSave nodeId userId

/-- `YjsDocManager.evictDoc`: an entry that has clients again is kept. -/
def evictDoc (m : Memory) (nodeId : NodeId) : Memory :=
  match m.docs nodeId with
  | none => m
  | some r => if (m.heap r).clients = ∅ then m.drop nodeId else m

/-- The end of `onModuleDestroy`: `docs.clear()`.  No timer is cleared. -/
def clear (m : Memory) : Memory := { m with docs := fun _ => none, keys := [] }

/-- `YjsDocManager.getClientCount`. -/
def getClientCount (m : Memory) (nodeId : NodeId) : ℕ :=
  ((m.get nodeId).map fun d => d.clients.card).getD 0

/-- `YjsDocManager.getDoc`. -/
def getDoc (m : Memory) (nodeId : NodeId) : Option YDoc :=
  (m.get nodeId).map fun d => d.doc

end Memory

/-! ### Loads -/

/-- Why a promise rejected. -/
inductive Failure
  | docNotLoaded (nodeId : NodeId)
  | nodeGone (nodeId : NodeId)
  | redis
  | database
  | lexical
  | undefinedEntry
  | processGone
  deriving DecidableEq

/-- The texts of the errors that the server constructs itself. -/
def Failure.message : Failure → Option String
  | .docNotLoaded nodeId => some s!"Yjs doc is not loaded: {nodeId}"
  | .nodeGone nodeId => some s!"Node no longer exists: {nodeId}"
  | _ => none

/-- What `loadFromDb` found. -/
structure DbResult where
  state : Option YDoc
  workspaceId : WorkspaceId
  deriving DecidableEq

/-- Where a `loadDoc` call is suspended. -/
inductive LoadPhase
  | loadFromRedis
  | redisAnswered (state : Option YDoc)
  | loadFromDb
  | dbAnswered (result : Option DbResult)
  | resolved (r : DocRef)
  | rejected (e : Failure)
  deriving DecidableEq

structure Load where
  nodeId : NodeId
  workspaceId : WorkspaceId
  phase : LoadPhase
  deriving DecidableEq

/-- What a caller of `getOrCreateDoc` awaits: nothing, or a load.  The caller
that started the load removes it from `loading` when it resumes. -/
inductive Await
  | ready (r : DocRef)
  | load (l : LoadId) (first : Bool)
  deriving DecidableEq

structure GetCall where
  nodeId : NodeId
  await : Await
  deriving DecidableEq

structure Loader where
  loading : NodeId → Option LoadId
  loads : LoadId → Option Load
  gets : ℕ → Option GetCall
  nextLoad : ℕ
  nextGet : ℕ

def Loader.init : Loader where
  loading _ := none
  loads _ := none
  gets _ := none
  nextLoad := 0
  nextGet := 0

/-- The call `l` goes on to `phase`. -/
def Loader.setPhase (ld : Loader) (l : LoadId) (phase : LoadPhase) : Loader :=
  { ld with
    loads := fun i => if i = l then (ld.loads l).map fun x => { x with phase := phase }
      else ld.loads i }

/-! ### Tasks and saves -/

/-- Who awaits a flush: each caller only hands a rejection to
`handleFlushError`, and a `flushAll` worker then takes its next node. -/
inductive FlushCaller
  | saveTimer
  | lastLeave
  | flushAll (call : ℕ)
  deriving DecidableEq

/-- What a task submitted to `runExclusive` does. -/
inductive TaskKind
  | flushDoc (caller : FlushCaller)
  | appendMarkdown (workspaceId : WorkspaceId) (markdown : String) (userId : UserId)
  deriving DecidableEq

/-- A job for the embedding queue. -/
structure EmbedJob where
  nodeId : NodeId
  userId : UserId
  workspaceId : WorkspaceId
  deriving DecidableEq

/-- Where a task is suspended.

* `loadingDoc` — `appendMarkdown` awaits `getOrCreateDoc`;
* `refreshing` — the skip branch of `flushDocLocked` awaits `saveToRedis`;
* `saving` — `flushDocLocked` awaits `Promise.all` of `saveToRedis` and
  `saveToDb`; `failure` is the first of the two to have rejected;
* `embedding` — it awaits `enqueueEmbedJob`;
* `settled` — the promise of the task has settled, and its caller has not yet
  resumed;
* `returned` — the caller has. -/
inductive Phase
  | queued
  | loadingDoc (await : Await)
  | refreshing (r : DocRef) (persisted : Persisted) (redis : Option Bool)
  | saving (r : DocRef) (save : SaveId) (stateVector : StateVector) (redis : Option Bool)
      (failure : Option Failure)
  | embedding (r : DocRef) (persisted : Persisted) (job : EmbedJob)
  | settled (result : Except Failure Persisted)
  | returned (result : Except Failure Persisted)

def Phase.stage : Phase → Stage
  | .queued => .queued
  | .settled _ | .returned _ => .settled
  | _ => .running

/-- The promise of the task has rejected. -/
def Phase.failed : Phase → Bool
  | .settled (.error _) | .returned (.error _) => true
  | _ => false

theorem Phase.exists_of_failed {phase : Phase} (h : phase.failed = true) :
    ∃ failure, phase = .settled (.error failure) ∨ phase = .returned (.error failure) := by
  unfold Phase.failed at h
  split at h
  · next failure => exact ⟨failure, Or.inl rfl⟩
  · next failure => exact ⟨failure, Or.inr rfl⟩
  · cases h

/-- The promise of the task has resolved, and nobody has gone on yet. -/
def Phase.resolved : Phase → Bool
  | .settled (.ok _) => true
  | _ => false

theorem Phase.exists_of_resolved {phase : Phase} (h : phase.resolved = true) :
    ∃ persisted, phase = .settled (.ok persisted) := by
  unfold Phase.resolved at h
  split at h
  · next persisted => exact ⟨persisted, rfl⟩
  · cases h

/-- A submitted task.  The last three fields record what its steps produced: the
changes that `appendMarkdownToYjsDoc` made and the update it returned, and the
state that `flushDocLocked` encoded. -/
structure Task where
  kind : TaskKind
  phase : Phase
  inserted : Option YDoc := none
  update : Option YDoc := none
  captured : Option YDoc := none

def Task.stage (t : Task) : Stage := t.phase.stage

@[simp] theorem Task.stage_mk (k : TaskKind) (p : Phase) (i u c : Option YDoc) :
    Task.stage ⟨k, p, i, u, c⟩ = p.stage := rfl

/-- The queue of `runExclusive`. -/
abbrev Queue := PromiseChain NodeId Task Task.stage

/-- Where a `saveToDb` call is suspended.  The row is committed before the
attachments are synced, outside the transaction. -/
inductive SavePhase
  | updateNodeRow
  | syncNodeAttachments (persisted : Persisted)
  | resolved (persisted : Persisted)
  | rejected (committed : Bool)
  deriving DecidableEq

/-- The row update of the call has committed. -/
def SavePhase.committed : SavePhase → Bool
  | .updateNodeRow => false
  | .syncNodeAttachments _ => true
  | .resolved _ => true
  | .rejected committed => committed

/-- The promise of the call has not settled. -/
def SavePhase.pending : SavePhase → Bool
  | .updateNodeRow => true
  | .syncNodeAttachments _ => true
  | _ => false

/-- A `saveToDb` call, with the flush task that made it and the object it
captured. -/
structure SaveCall where
  nodeId : NodeId
  task : TaskId
  ref : DocRef
  state : YDoc
  markdownText : String
  workspaceId : WorkspaceId
  attachmentContent : String
  phase : SavePhase
  deriving DecidableEq

/-! ### The stores -/

/-- How a call to a store ends: it is executed and the caller learns it, it is
executed and the reply is lost, or it is not executed.  In the last two cases
the caller sees a rejection. -/
inductive Reply
  | ok
  | lost
  | failed
  deriving DecidableEq

def Reply.executed : Reply → Bool
  | .failed => false
  | _ => true

inductive RedisCommand
  | get (l : LoadId)
  | set (nodeId : NodeId) (state : YDoc) (task : TaskId)
  | del (nodeId : NodeId)
  deriving DecidableEq

/-- A cached snapshot, with the task whose `saveToRedis` wrote it. -/
structure Cached where
  state : YDoc
  writer : TaskId
  deriving DecidableEq

structure Redis where
  store : NodeId → Option Cached
  commands : List RedisCommand

/-- The keys of a node's `content` that the server looks at, and the others. -/
structure NodeContent where
  dataType : Option String
  markdownBody : Option String
  others : List (String × String)
  deriving DecidableEq, Inhabited

/-- A row of the `nodes` table. -/
structure NodeRow where
  yjsState : Option YDoc
  content : Option NodeContent
  version : ℕ
  updatedAt : ℕ
  workspaceId : WorkspaceId
  deletedAt : Option ℕ
  deriving DecidableEq, Inhabited

/-- A running `flushAll`: the node ids it took, the cursor its workers share,
and how many workers have not ended. -/
structure FlushAllCall where
  nodeIds : List NodeId
  cursor : ℕ
  workers : ℕ
  deriving DecidableEq

/-- Where `onModuleDestroy` stands. -/
inductive Shutdown
  | no
  | flushing (call : ℕ)
  | done
  deriving DecidableEq

structure State where
  mem : Memory
  loader : Loader
  queue : Queue
  saves : SaveId → Option SaveCall
  nextSave : ℕ
  redis : Redis
  nodes : NodeId → Option NodeRow
  embedJobs : List EmbedJob
  flushAlls : ℕ → Option FlushAllCall
  nextFlushAll : ℕ
  shutdown : Shutdown

/-- A process started with an empty cache over the given table. -/
def State.init (nodes : NodeId → Option NodeRow) : State where
  mem := .init
  loader := .init
  queue := .empty
  saves _ := none
  nextSave := 0
  redis := ⟨fun _ => none, []⟩
  nodes := nodes
  embedJobs := []
  flushAlls _ := none
  nextFlushAll := 0
  shutdown := .no

end DocManager

end AideepWebsocket
