import AideepWebsocket.DocManager.Cases

/-!
# What the operations of YjsDocManager leave alone

Every operation of the manager touches a few components of its state.  This
module states, for each operation, which components those are: as equations in
the simp set where a component is not touched at all, and as a relation between
the memory before and after where it is.

* `Memory.SameDocs`, `Memory.Edits`, `Memory.Records`, `Memory.Removes` — the
  four ways in which an operation treats the managed objects;
* `State.Submits` — an operation that only puts flushes into the queue;
* `State.FlushStep` — the outcomes of `flushDocLocked` up to its first await;
* `resumeAppend_step`, `resumeTask_step`, … — the operations that combine them.
-/

namespace AideepWebsocket.DocManager

open Library

variable {lex : Lexical} {s s' : State}

/-! ### Memory -/

namespace Memory

/-- Two memories hold the same documents and the same record of what has been
saved; they may differ in timers, clients and flags. -/
structure SameDocs (m m' : Memory) : Prop where
  docs : m'.docs = m.docs
  nextRef : m'.nextRef = m.nextRef
  doc : ∀ r, (m'.heap r).doc = (m.heap r).doc
  lastSavedStateVector : ∀ r,
    (m'.heap r).lastSavedStateVector = (m.heap r).lastSavedStateVector
  lastPersisted : ∀ r, (m'.heap r).lastPersisted = (m.heap r).lastPersisted

namespace SameDocs

@[refl] theorem refl (m : Memory) : SameDocs m m :=
  ⟨rfl, rfl, fun _ => rfl, fun _ => rfl, fun _ => rfl⟩

theorem trans {m₁ m₂ m₃ : Memory} (h : SameDocs m₁ m₂) (k : SameDocs m₂ m₃) :
    SameDocs m₁ m₃ where
  docs := k.docs.trans h.docs
  nextRef := k.nextRef.trans h.nextRef
  doc r := (k.doc r).trans (h.doc r)
  lastSavedStateVector r := (k.lastSavedStateVector r).trans (h.lastSavedStateVector r)
  lastPersisted r := (k.lastPersisted r).trans (h.lastPersisted r)

/-- Whether a flush would be skipped depends on the documents and the record
only. -/
theorem unchanged {m m' : Memory} (h : SameDocs m m') (r : DocRef) :
    (m'.heap r).unchanged = (m.heap r).unchanged := by
  simp only [ManagedDoc.unchanged, h.doc, h.lastSavedStateVector, h.lastPersisted]

end SameDocs

variable (m : Memory)

/-- Assigning to flags, timers or clients of an entry keeps the documents. -/
theorem sameDocs_modify (r : DocRef) (f : ManagedDoc → ManagedDoc)
    (hdoc : ∀ d, (f d).doc = d.doc)
    (hsv : ∀ d, (f d).lastSavedStateVector = d.lastSavedStateVector)
    (hp : ∀ d, (f d).lastPersisted = d.lastPersisted) : SameDocs m (m.modify r f) := by
  refine ⟨rfl, rfl, fun q => ?_, fun q => ?_, fun q => ?_⟩ <;>
  · by_cases hq : q = r
    · subst hq
      simp [modify, hdoc, hsv, hp]
    · simp [modify, Function.update_of_ne hq]

/-- A timer that is cleared changes no document. -/
theorem sameDocs_clearTimeout (t : Option TimerId) : SameDocs m (m.clearTimeout t) := by
  cases t <;> exact ⟨rfl, rfl, fun _ => rfl, fun _ => rfl, fun _ => rfl⟩

/-- Neither does one that is set. -/
theorem sameDocs_setTimeout (timer : Timer) : SameDocs m (m.setTimeout timer) :=
  ⟨rfl, rfl, fun _ => rfl, fun _ => rfl, fun _ => rfl⟩

/-- The idle timer of a document is no part of what it holds. -/
theorem sameDocs_cancelIdle (r : DocRef) : SameDocs m (m.cancelIdle r) := by
  unfold cancelIdle
  split
  · exact .refl m
  · exact (sameDocs_clearTimeout m _).trans
      (sameDocs_modify _ r _ (fun _ => rfl) (fun _ => rfl) (fun _ => rfl))

/-- A client is no part of what a document holds. -/
theorem sameDocs_addClient (nodeId : NodeId) (socketId : SocketId) :
    SameDocs m (m.addClient nodeId socketId) := by
  unfold addClient
  split
  · exact .refl m
  · exact sameDocs_modify m _ _ (fun _ => rfl) (fun _ => rfl) (fun _ => rfl)

/-- Scheduling a save changes marks and timers. -/
theorem sameDocs_scheduleSave (nodeId : NodeId) (userId : Option UserId) :
    SameDocs m (m.scheduleSave nodeId userId) := by
  unfold scheduleSave
  split
  · exact .refl m
  · exact ((sameDocs_clearTimeout m _).trans (sameDocs_setTimeout _ _)).trans
      (sameDocs_modify _ _ _ (fun _ => rfl) (fun _ => rfl) (fun _ => rfl))

/-- A new save timer of the node is armed, and the given user is noted as the
last editor of its document. -/
structure SaveScheduled (m m' : Memory) (nodeId : NodeId) (userId : Option UserId) :
    Prop where
  nextTimer : m'.nextTimer = m.nextTimer + 1
  timer : m'.timers m.nextTimer = some (.save nodeId)
  entry : ∃ r, m'.docs nodeId = some r ∧ (m'.heap r).saveTimer = some m.nextTimer ∧
    (m'.heap r).dirtyForEmbed = true ∧
    ∀ user, userId = some user → (m'.heap r).lastEditorUserId = some user

/-- An edit is marked, with its user, and the debounce is set. -/
theorem saveScheduled {m : Memory} {nodeId : NodeId} {r : DocRef} (h : m.docs nodeId = some r)
    (userId : Option UserId) : SaveScheduled m (m.scheduleSave nodeId userId) nodeId userId := by
  have hclear : (m.clearTimeout (m.heap r).saveTimer).nextTimer = m.nextTimer ∧
      (m.clearTimeout (m.heap r).saveTimer).docs = m.docs := by
    cases (m.heap r).saveTimer <;> exact ⟨rfl, rfl⟩
  have heq : m.scheduleSave nodeId userId =
      ((m.clearTimeout (m.heap r).saveTimer).setTimeout (.save nodeId)).modify r fun d =>
        { d with
          dirtyForEmbed := true
          lastEditorUserId := userId.orElse fun _ => d.lastEditorUserId
          saveTimer := some m.nextTimer } := by
    rw [scheduleSave, h]
  rw [heq]
  refine ⟨?_, ?_, r, ?_, ?_⟩
  · simp [modify, setTimeout, hclear.1]
  · simp [modify, setTimeout, hclear.1]
  · simp [modify, setTimeout, hclear.2, h]
  · refine ⟨by simp [modify], by simp [modify], ?_⟩
    rintro user rfl
    simp [modify]

/-- The object at `r` is edited: the update `u` is merged into its document. -/
structure Edits (m m' : Memory) (r : DocRef) (u : YDoc) : Prop where
  docs : m'.docs = m.docs
  nextRef : m'.nextRef = m.nextRef
  doc : ∀ q, (m'.heap q).doc = if q = r then (m.heap q).doc ⊔ u else (m.heap q).doc
  lastSavedStateVector : ∀ q,
    (m'.heap q).lastSavedStateVector = (m.heap q).lastSavedStateVector
  lastPersisted : ∀ q, (m'.heap q).lastPersisted = (m.heap q).lastPersisted

/-- An update is applied to one document. -/
theorem edits_modify (r : DocRef) (u : YDoc) :
    Edits m (m.modify r fun d => { d with doc := AideepWebsocket.applyUpdate d.doc u }) r u := by
  refine ⟨rfl, rfl, fun q => ?_, fun q => ?_, fun q => ?_⟩ <;>
  · by_cases hq : q = r
    · subst hq
      simp [modify, AideepWebsocket.applyUpdate]
    · simp [modify, hq]

/-- What follows an edit without touching documents does not undo it. -/
theorem Edits.trans_sameDocs {m m₁ m₂ : Memory} {r : DocRef} {u : YDoc}
    (h : Edits m m₁ r u) (k : SameDocs m₁ m₂) : Edits m m₂ r u where
  docs := k.docs.trans h.docs
  nextRef := k.nextRef.trans h.nextRef
  doc q := (k.doc q).trans (h.doc q)
  lastSavedStateVector q := (k.lastSavedStateVector q).trans (h.lastSavedStateVector q)
  lastPersisted q := (k.lastPersisted q).trans (h.lastPersisted q)

/-- A document is never edited into a smaller one. -/
theorem Edits.le_doc {m m' : Memory} {r : DocRef} {u : YDoc} (h : Edits m m' r u)
    (q : DocRef) : (m.heap q).doc ≤ (m'.heap q).doc := by
  rw [h.doc]
  split
  · exact le_sup_left
  · exact le_rfl

/-- What a flush has saved is recorded in the object at `r`. -/
structure Records (m m' : Memory) (r : DocRef) (sv : StateVector) (p : Persisted) : Prop where
  docs : m'.docs = m.docs
  nextRef : m'.nextRef = m.nextRef
  doc : ∀ q, (m'.heap q).doc = (m.heap q).doc
  lastSavedStateVector : ∀ q, (m'.heap q).lastSavedStateVector =
    if q = r then some sv else (m.heap q).lastSavedStateVector
  lastPersisted : ∀ q, (m'.heap q).lastPersisted =
    if q = r then some p else (m.heap q).lastPersisted

/-- What has been saved is recorded at one document. -/
theorem records_modify (r : DocRef) (sv : StateVector) (p : Persisted) :
    Records m (m.modify r fun d =>
      { d with lastSavedStateVector := some sv, lastPersisted := some p }) r sv p := by
  refine ⟨rfl, rfl, fun q => ?_, fun q => ?_, fun q => ?_⟩ <;>
  · by_cases hq : q = r
    · subst hq
      simp [modify]
    · simp [modify, hq]

/-- What is recorded stays when nothing else is changed. -/
theorem Records.trans_sameDocs {m m₁ m₂ : Memory} {r : DocRef} {sv : StateVector}
    {p : Persisted} (h : Records m m₁ r sv p) (k : SameDocs m₁ m₂) :
    Records m m₂ r sv p where
  docs := k.docs.trans h.docs
  nextRef := k.nextRef.trans h.nextRef
  doc q := (k.doc q).trans (h.doc q)
  lastSavedStateVector q := (k.lastSavedStateVector q).trans (h.lastSavedStateVector q)
  lastPersisted q := (k.lastPersisted q).trans (h.lastPersisted q)

/-- Entries leave `docs`; the objects stay as they are. -/
structure Removes (m m' : Memory) : Prop where
  docs : ∀ n, m'.docs n = m.docs n ∨ m'.docs n = none
  nextRef : m'.nextRef = m.nextRef
  heap : m'.heap = m.heap

/-- The document of the node is dropped. -/
theorem removes_drop (nodeId : NodeId) : Removes m (m.drop nodeId) := by
  unfold drop
  cases h : m.docs nodeId with
  | none => exact ⟨fun _ => Or.inl rfl, rfl, rfl⟩
  | some r =>
      have hclear : ∀ t, (m.clearTimeout t).docs = m.docs ∧
          (m.clearTimeout t).heap = m.heap ∧ (m.clearTimeout t).nextRef = m.nextRef := by
        rintro (_ | t) <;> exact ⟨rfl, rfl, rfl⟩
      have hclear' : ∀ t u, ((m.clearTimeout t).clearTimeout u).docs = m.docs ∧
          ((m.clearTimeout t).clearTimeout u).heap = m.heap ∧
          ((m.clearTimeout t).clearTimeout u).nextRef = m.nextRef := by
        rintro t (_ | u) <;> exact hclear t
      refine ⟨fun n => ?_, (hclear' _ _).2.2, (hclear' _ _).2.1⟩
      by_cases hn : n = nodeId
      · subst hn
        exact Or.inr (Function.update_self ..)
      · refine Or.inl ?_
        rw [← (hclear' (m.heap r).saveTimer (m.heap r).idleTimer).1]
        exact Function.update_of_ne hn ..

/-- So it is by an eviction. -/
theorem removes_evictDoc (nodeId : NodeId) : Removes m (m.evictDoc nodeId) := by
  rcases evictDoc_cases m nodeId with ⟨hkept, -⟩ | ⟨hdrop, -⟩
  · rw [hkept]
    exact ⟨fun _ => Or.inl rfl, rfl, rfl⟩
  · rw [hdrop]
    exact removes_drop m nodeId

end Memory

/-! ### Frames -/

namespace State

variable (s : State)

/-- A command is issued, and ends later. -/
@[simp] theorem issue_frame (cmd : RedisCommand) :
    (s.issue cmd).mem = s.mem ∧ (s.issue cmd).loader = s.loader ∧
    (s.issue cmd).queue = s.queue ∧ (s.issue cmd).saves = s.saves ∧
    (s.issue cmd).nextSave = s.nextSave ∧ (s.issue cmd).nodes = s.nodes ∧
    (s.issue cmd).redis.store = s.redis.store ∧
    (s.issue cmd).redis.commands = s.redis.commands ++ [cmd] :=
  ⟨rfl, rfl, rfl, rfl, rfl, rfl, rfl, rfl⟩

/-- A task goes on, and nothing else does. -/
@[simp] theorem setTask_frame (t : TaskId) (x : Task) :
    (s.setTask t x).mem = s.mem ∧ (s.setTask t x).loader = s.loader ∧
    (s.setTask t x).queue = s.queue.advance t x ∧ (s.setTask t x).saves = s.saves ∧
    (s.setTask t x).nextSave = s.nextSave ∧ (s.setTask t x).nodes = s.nodes ∧
    (s.setTask t x).redis = s.redis :=
  ⟨rfl, rfl, rfl, rfl, rfl, rfl, rfl⟩

/-- To settle is to go on to the last phase. -/
@[simp] theorem settle_eq (t : TaskId) (x : Task) (result : Except Failure Persisted) :
    s.settle t x result = s.setTask t { x with phase := .settled result } := rfl

/-- A `saveToDb` goes on, and nothing else does. -/
@[simp] theorem setSave_frame (save : SaveId) (c : SaveCall) (phase : SavePhase) :
    (s.setSave save c phase).mem = s.mem ∧ (s.setSave save c phase).loader = s.loader ∧
    (s.setSave save c phase).queue = s.queue ∧
    (s.setSave save c phase).saves =
      Function.update s.saves save (some { c with phase := phase }) ∧
    (s.setSave save c phase).nextSave = s.nextSave ∧
    (s.setSave save c phase).nodes = s.nodes ∧ (s.setSave save c phase).redis = s.redis :=
  ⟨rfl, rfl, rfl, rfl, rfl, rfl, rfl⟩

/-- The `finally` of a load is about `loading`. -/
@[simp] theorem finishAwait_frame (nodeId : NodeId) (await : Await) :
    (s.finishAwait nodeId await).mem = s.mem ∧
    (s.finishAwait nodeId await).queue = s.queue ∧
    (s.finishAwait nodeId await).saves = s.saves ∧
    (s.finishAwait nodeId await).nextSave = s.nextSave ∧
    (s.finishAwait nodeId await).nodes = s.nodes ∧
    (s.finishAwait nodeId await).redis = s.redis ∧
    (s.finishAwait nodeId await).loader.loads = s.loader.loads ∧
    (s.finishAwait nodeId await).loader.nextLoad = s.loader.nextLoad := by
  rcases await with r | ⟨l, _ | _⟩ <;> exact ⟨rfl, rfl, rfl, rfl, rfl, rfl, rfl, rfl⟩

/-- The reply to a `SET` is about the task that has issued it. -/
@[simp] theorem saveToRedisReply_frame (t : TaskId) (ok : Bool) :
    (s.saveToRedisReply t ok).mem = s.mem ∧ (s.saveToRedisReply t ok).loader = s.loader ∧
    (s.saveToRedisReply t ok).saves = s.saves ∧
    (s.saveToRedisReply t ok).nextSave = s.nextSave ∧
    (s.saveToRedisReply t ok).nodes = s.nodes ∧
    (s.saveToRedisReply t ok).redis = s.redis := by
  unfold saveToRedisReply
  split
  · exact ⟨rfl, rfl, rfl, rfl, rfl, rfl⟩
  · split <;> exact ⟨rfl, rfl, rfl, rfl, rfl, rfl⟩

/-- A `saveToDb` that fails is about itself and its task. -/
@[simp] theorem rejectSave_frame (save : SaveId) (c : SaveCall) (committed : Bool)
    (failure : Failure) :
    (s.rejectSave save c committed failure).mem = s.mem ∧
    (s.rejectSave save c committed failure).loader = s.loader ∧
    (s.rejectSave save c committed failure).saves =
      Function.update s.saves save (some { c with phase := .rejected committed }) ∧
    (s.rejectSave save c committed failure).nextSave = s.nextSave ∧
    (s.rejectSave save c committed failure).nodes = s.nodes ∧
    (s.rejectSave save c committed failure).redis = s.redis := by
  unfold rejectSave
  split
  · exact ⟨rfl, rfl, rfl, rfl, rfl, rfl⟩
  · split
    · split <;> exact ⟨rfl, rfl, rfl, rfl, rfl, rfl⟩
    · exact ⟨rfl, rfl, rfl, rfl, rfl, rfl⟩

/-- A step that only submits flushes: nothing else that the claims about
documents speak of is changed. -/
structure Submits (s s' : State) : Prop where
  mem : s'.mem = s.mem
  loader : s'.loader = s.loader
  saves : s'.saves = s.saves
  nextSave : s'.nextSave = s.nextSave
  nodes : s'.nodes = s.nodes
  redis : s'.redis = s.redis
  keeps : ∀ {i t}, s.queue.task i = some t → s'.queue.task i = some t
  fresh : ∀ {i t}, s'.queue.task i = some t → s.queue.task i = some t ∨
    s.queue.task i = none ∧ ∃ caller, t.payload = { kind := .flushDoc caller, phase := .queued }

namespace Submits

@[refl] theorem refl (s : State) : Submits s s :=
  ⟨rfl, rfl, rfl, rfl, rfl, rfl, id, Or.inl⟩

theorem trans {s₁ s₂ s₃ : State} (h : Submits s₁ s₂) (k : Submits s₂ s₃) :
    Submits s₁ s₃ where
  mem := k.mem.trans h.mem
  loader := k.loader.trans h.loader
  saves := k.saves.trans h.saves
  nextSave := k.nextSave.trans h.nextSave
  nodes := k.nodes.trans h.nodes
  redis := k.redis.trans h.redis
  keeps ht := k.keeps (h.keeps ht)
  fresh := by
    intro i t ht
    rcases k.fresh ht with ht | ⟨hnone, hfresh⟩
    · exact h.fresh ht
    · refine Or.inr ⟨?_, hfresh⟩
      cases hi : s₁.queue.task i with
      | none => rfl
      | some t₁ => rw [h.keeps hi] at hnone; cases hnone

end Submits

/-- A task that joins the queue leaves the others as they are. -/
theorem runExclusive_keeps {nodeId : NodeId} {kind : TaskKind} {i : TaskId}
    {t : ChainTask NodeId Task} (ht : s.queue.task i = some t) :
    (s.runExclusive nodeId kind).queue.task i = some t :=
  PromiseChain.submit_task_of_some s.queue nodeId _ rfl ht

/-- One of them is new, and queued. -/
theorem runExclusive_fresh {nodeId : NodeId} {kind : TaskKind} {i : TaskId}
    {t : ChainTask NodeId Task} (ht : (s.runExclusive nodeId kind).queue.task i = some t) :
    s.queue.task i = some t ∨
      s.queue.task i = none ∧ t.payload = { kind := kind, phase := .queued } := by
  rcases PromiseChain.task_of_submit s.queue nodeId _ rfl ht with ht | ⟨rfl, rfl⟩
  · exact Or.inl ht
  · refine Or.inr ⟨?_, rfl⟩
    cases hi : s.queue.task s.queue.next with
    | none => rfl
    | some t₁ => exact absurd (s.queue.lt_next hi) (lt_irrefl _)

/-- `flushDoc` submits its task. -/
theorem submits_flushDoc (nodeId : NodeId) (caller : FlushCaller) :
    Submits s (s.flushDoc nodeId caller) := by
  refine ⟨rfl, rfl, rfl, rfl, rfl, rfl, runExclusive_keeps s, fun ht => ?_⟩
  rcases runExclusive_fresh s ht with ht | ⟨hnone, hfresh⟩
  · exact Or.inl ht
  · exact Or.inr ⟨hnone, caller, hfresh⟩

/-- A call of `flushAll` is bookkeeping. -/
private theorem submits_flushAlls (calls : ℕ → Option FlushAllCall) (next : ℕ) :
    Submits s { s with flushAlls := calls, nextFlushAll := next } :=
  ⟨rfl, rfl, rfl, rfl, rfl, rfl, id, Or.inl⟩

/-- A worker submits the flush of its next id, if there is one. -/
theorem submits_nextFlush (call : ℕ) : Submits s (s.nextFlush call) := by
  unfold nextFlush
  split
  · exact .refl s
  · split
    · exact (submits_flushAlls s _ _).trans (submits_flushDoc _ _ _)
    · exact submits_flushAlls s _ _

/-- `flushAll` enters the call, and then its workers take their first ids one by one. -/
theorem flushAll_induction {P : State → Prop}
    (hcall : P { s with
      flushAlls := Function.update s.flushAlls s.nextFlushAll
        (some ⟨s.mem.keys, 0, min FLUSH_CONCURRENCY s.mem.keys.length⟩)
      nextFlushAll := s.nextFlushAll + 1 })
    (hnext : ∀ s₁, P s₁ → P (s₁.nextFlush s.nextFlushAll)) : P s.flushAll :=
  Function.Iterate.rec P hcall hnext (min FLUSH_CONCURRENCY s.mem.keys.length)

/-- `flushAll` submits the first flush of each worker. -/
theorem submits_flushAll : Submits s s.flushAll := by
  apply flushAll_induction
  · exact submits_flushAlls s _ _
  · intro s₁ h
    exact h.trans (submits_nextFlush s₁ _)

/-! ### The flush -/

/-- The ways in which `flushDocLocked` may leave the state up to its first
await: the document is not loaded, the save is skipped, an export throws (before
or after the snapshot has been handed to Redis), or `saveToDb` is called. -/
inductive FlushStep (s : State) (t : TaskId) (x : Task) (n : NodeId) : State → Prop
  | notLoaded (hdocs : s.mem.docs n = none) :
      FlushStep s t x n
        (s.setTask t { x with phase := .settled (.error (.docNotLoaded n)) })
  | skip (r : DocRef) (mem : Memory) (hdocs : s.mem.docs n = some r)
      (hmem : s.mem.SameDocs mem) (hunchanged : (s.mem.heap r).unchanged = true) :
      FlushStep s t x n
        { s with
          mem := mem
          redis := ⟨s.redis.store, s.redis.commands ++ [.set n (s.mem.heap r).doc t]⟩
          queue := s.queue.advance t
            { x with
              captured := some (s.mem.heap r).doc
              phase := .refreshing r ((s.mem.heap r).lastPersisted.getD default) none } }
  | throws (r : DocRef) (mem : Memory) (cmds : List RedisCommand)
      (hdocs : s.mem.docs n = some r) (hmem : s.mem.SameDocs mem)
      (hcmds : ∀ cmd ∈ cmds, cmd = .set n (s.mem.heap r).doc t) :
      FlushStep s t x n
        { s with
          mem := mem
          redis := ⟨s.redis.store, s.redis.commands ++ cmds⟩
          queue := s.queue.advance t
            { x with
              captured := some (s.mem.heap r).doc
              phase := .settled (.error .lexical) } }
  | save (r : DocRef) (mem : Memory) (c : SaveCall) (hdocs : s.mem.docs n = some r)
      (hmem : s.mem.SameDocs mem) (hchanged : (s.mem.heap r).unchanged = false)
      (hnode : c.nodeId = n) (htask : c.task = t) (href : c.ref = r)
      (hstate : c.state = (s.mem.heap r).doc) (hphase : c.phase = .updateNodeRow) :
      FlushStep s t x n
        { s with
          mem := mem
          redis := ⟨s.redis.store, s.redis.commands ++ [.set n (s.mem.heap r).doc t]⟩
          saves := Function.update s.saves s.nextSave (some c)
          nextSave := s.nextSave + 1
          queue := s.queue.advance t
            { x with
              captured := some (s.mem.heap r).doc
              phase := .saving r s.nextSave (encodeStateVector (s.mem.heap r).doc)
                none none } }

/-- **What a flush does when it starts**: it skips, it saves, or an export throws. -/
theorem flushDocLocked_step (t : TaskId) (x : Task) (n : NodeId)
    (knownMarkdown : Option String) :
    FlushStep s t x n (s.flushDocLocked lex t x n knownMarkdown) := by
  unfold flushDocLocked
  cases hdocs : s.mem.docs n with
  | none => exact .notLoaded hdocs
  | some r =>
      have hclear : s.mem.SameDocs ((s.mem.clearTimeout (s.mem.heap r).saveTimer).modify r
          fun d => { d with saveTimer := none }) :=
        (Memory.sameDocs_clearTimeout _ _).trans
          (Memory.sameDocs_modify _ _ _ (fun _ => rfl) (fun _ => rfl) (fun _ => rfl))
      simp only [encodeStateAsUpdate_empty]
      split
      · next hunchanged =>
          refine .skip r _ hdocs (hclear.trans ?_) hunchanged
          show Memory.SameDocs _ (Memory.modify _ r fun d => { d with dirtyForEmbed := false })
          exact Memory.sameDocs_modify _ _ _ (fun _ => rfl) (fun _ => rfl) (fun _ => rfl)
      · next hchanged =>
          have hchanged : (s.mem.heap r).unchanged = false := by simpa using hchanged
          split
          · have h := FlushStep.throws (t := t) (x := x) r _ [] hdocs hclear (by simp)
            simpa [setTask] using h
          · split
            · exact .throws r _ [_] hdocs hclear (by simp)
            · exact .save r _ _ hdocs hclear hchanged rfl rfl rfl rfl rfl

/-- A flush edits no document. -/
theorem FlushStep.sameDocs {t : TaskId} {x : Task} {n : NodeId}
    (h : s.FlushStep t x n s') : s.mem.SameDocs s'.mem := by
  cases h with
  | notLoaded => exact .refl _
  | skip r mem _ hmem _ => exact hmem
  | throws r mem cmds _ hmem _ => exact hmem
  | save r mem c _ hmem => exact hmem

/-- A flush leaves the rows and the cache alone until the stores answer. -/
theorem FlushStep.stores {t : TaskId} {x : Task} {n : NodeId}
    (h : s.FlushStep t x n s') :
    s'.nodes = s.nodes ∧ s'.redis.store = s.redis.store ∧ s'.loader = s.loader := by
  cases h <;> exact ⟨rfl, rfl, rfl⟩

/-- How a task starts, with its flush by what that leaves alone. -/
theorem startTask_step {t : TaskId} (h : s.startTask lex t = some s') :
    ∃ entry, s.queue.task t = some entry ∧ entry.payload.phase = .queued ∧
      s.queue.ready entry = true ∧
      (((∃ caller, entry.payload.kind = .flushDoc caller) ∧
          FlushStep s t entry.payload entry.key s') ∨
        ∃ ws markdown userId, entry.payload.kind = .appendMarkdown ws markdown userId ∧
          s' = (s.getOrCreateDoc entry.key ws).1.setTask t
            { entry.payload with phase := .loadingDoc (s.getOrCreateDoc entry.key ws).2 }) := by
  obtain ⟨entry, htask, hphase, hready, hcase⟩ := startTask_cases s h
  refine ⟨entry, htask, hphase, hready, hcase.imp_left ?_⟩
  rintro ⟨caller, hkind, rfl⟩
  exact ⟨⟨caller, hkind⟩, flushDocLocked_step s t entry.payload _ none⟩

/-- What `getOrCreateDoc` touches before it awaits. -/
theorem getOrCreateDoc_frame (nodeId : NodeId) (workspaceId : WorkspaceId) :
    s.mem.SameDocs (s.getOrCreateDoc nodeId workspaceId).1.mem ∧
    (s.getOrCreateDoc nodeId workspaceId).1.queue = s.queue ∧
    (s.getOrCreateDoc nodeId workspaceId).1.saves = s.saves ∧
    (s.getOrCreateDoc nodeId workspaceId).1.nextSave = s.nextSave ∧
    (s.getOrCreateDoc nodeId workspaceId).1.nodes = s.nodes ∧
    (s.getOrCreateDoc nodeId workspaceId).1.redis.store = s.redis.store ∧
    ∀ {n state t}, .set n state t ∈ (s.getOrCreateDoc nodeId workspaceId).1.redis.commands →
      .set n state t ∈ s.redis.commands := by
  unfold getOrCreateDoc
  split
  · exact ⟨Memory.sameDocs_cancelIdle _ _, rfl, rfl, rfl, rfl, rfl, id⟩
  · split
    · exact ⟨.refl _, rfl, rfl, rfl, rfl, rfl, id⟩
    · refine ⟨.refl _, rfl, rfl, rfl, rfl, rfl, fun h => ?_⟩
      simpa using h

/-- The reply of Redis reaches a task that awaits it, or nobody. -/
theorem saveToRedisReply_queue (t : TaskId) (ok : Bool) :
    (s.saveToRedisReply t ok).queue = s.queue ∨
    ∃ entry phase, s.queue.task t = some entry ∧
      (s.saveToRedisReply t ok).queue = s.queue.advance t { entry.payload with phase := phase } ∧
      ((∃ r persisted, entry.payload.phase = .refreshing r persisted none ∧
          phase = .refreshing r persisted (some ok)) ∨
        ∃ r save sv failure, entry.payload.phase = .saving r save sv none failure ∧
          phase = .saving r save sv (some ok)
            (if ok then failure else failure.orElse fun _ => some .redis)) := by
  unfold saveToRedisReply
  cases htask : s.queue.task t with
  | none => exact Or.inl rfl
  | some entry =>
      dsimp only
      split
      · next r persisted hphase =>
          exact Or.inr ⟨entry, _, rfl, rfl, Or.inl ⟨r, persisted, hphase, rfl⟩⟩
      · next r save sv failure hphase =>
          exact Or.inr ⟨entry, _, rfl, rfl, Or.inr ⟨r, save, sv, failure, hphase, rfl⟩⟩
      · exact Or.inl rfl

/-- A rejected `saveToDb` reaches the task that awaits it, or nobody. -/
theorem rejectSave_queue (save : SaveId) (c : SaveCall) (committed : Bool)
    (failure : Failure) :
    (s.rejectSave save c committed failure).queue = s.queue ∨
    ∃ entry r sv redis first, s.queue.task c.task = some entry ∧
      entry.payload.phase = .saving r save sv redis first ∧
      (s.rejectSave save c committed failure).queue = s.queue.advance c.task
        { entry.payload with
          phase := .saving r save sv redis (first.orElse fun _ => some failure) } := by
  unfold rejectSave
  cases htask : s.queue.task c.task with
  | none => exact Or.inl rfl
  | some entry =>
      dsimp only
      split
      · next r save' sv redis first hphase =>
          split
          · next hsave =>
              subst hsave
              exact Or.inr ⟨entry, r, sv, redis, first, rfl, hphase, rfl⟩
          · exact Or.inl rfl
      · exact Or.inl rfl

/-- How a flush resumes, with the record of the save by what it leaves alone. -/
theorem continueFlush_step {t : TaskId} (h : s.continueFlush t = some s') :
    ∃ entry mem phase, s.queue.task t = some entry ∧
      s' = ({ s with mem := mem } : State).setTask t { entry.payload with phase := phase } ∧
      ((mem = s.mem ∧ ∃ r persisted, entry.payload.phase = .refreshing r persisted (some true) ∧
          phase = .settled (.ok persisted)) ∨
        (mem = s.mem ∧ (∃ r persisted, entry.payload.phase = .refreshing r persisted (some false)) ∧
          phase = .settled (.error .redis)) ∨
        (mem = s.mem ∧ ∃ r save sv redis failure,
          entry.payload.phase = .saving r save sv redis (some failure) ∧
          phase = .settled (.error failure)) ∨
        ∃ r save sv persisted, entry.payload.phase = .saving r save sv (some true) none ∧
          (s.saves save).map SaveCall.phase = some (.resolved persisted) ∧
          s.mem.Records mem r sv persisted ∧
          (phase = .settled (.ok persisted) ∨ ∃ job, phase = .embedding r persisted job)) := by
  obtain ⟨entry, htask, ⟨result, rfl, hcase⟩ | ⟨r, save, sv, persisted, hphase, hsave, hcase⟩⟩ :=
    continueFlush_cases s h
  · refine ⟨entry, s.mem, .settled result, htask, rfl, ?_⟩
    rcases hcase with ⟨r, persisted, hphase, rfl⟩ | ⟨r, persisted, hphase, rfl⟩ |
      ⟨r, save, sv, redis, failure, hphase, rfl⟩
    · exact Or.inl ⟨rfl, r, persisted, hphase, rfl⟩
    · exact Or.inr (Or.inl ⟨rfl, ⟨r, persisted, hphase⟩, rfl⟩)
    · exact Or.inr (Or.inr (Or.inl ⟨rfl, r, save, sv, redis, failure, hphase, rfl⟩))
  · have hrecord := Memory.records_modify s.mem r sv persisted
    rcases hcase with ⟨-, rfl⟩ | ⟨userId, rfl⟩
    · exact ⟨entry, _, _, htask, rfl, Or.inr (Or.inr (Or.inr
        ⟨r, save, sv, persisted, hphase, hsave, hrecord, Or.inl rfl⟩))⟩
    · refine ⟨entry, _, _, htask, rfl, Or.inr (Or.inr (Or.inr
        ⟨r, save, sv, persisted, hphase, hsave, hrecord.trans_sameDocs ?_, Or.inr ⟨_, rfl⟩⟩))⟩
      exact Memory.sameDocs_modify _ r (fun d => { d with dirtyForEmbed := false })
        (fun _ => rfl) (fun _ => rfl) (fun _ => rfl)

/-- The last leave submits a flush. -/
theorem submits_removeClient (nodeId : NodeId) (socketId : SocketId) :
    ∃ mem, s.mem.SameDocs mem ∧
      Submits { s with mem := mem } (s.removeClient nodeId socketId) := by
  unfold removeClient
  split
  · exact ⟨s.mem, .refl _, .refl s⟩
  · next r _ =>
      have hleave : s.mem.SameDocs (s.mem.modify r fun d =>
          { d with clients := d.clients.erase socketId }) :=
        Memory.sameDocs_modify _ _ _ (fun _ => rfl) (fun _ => rfl) (fun _ => rfl)
      dsimp only
      split
      · have h := submits_flushDoc s nodeId .lastLeave
        refine ⟨_, ?_, rfl, h.loader, h.saves, h.nextSave, h.nodes, h.redis, h.keeps, h.fresh⟩
        exact (hleave.trans (Memory.sameDocs_setTimeout _ (.idle nodeId))).trans
          (Memory.sameDocs_modify _ r _ (fun _ => rfl) (fun _ => rfl) (fun _ => rfl))
      · exact ⟨_, hleave, .refl _⟩

/-- What `handleFlushError` does beyond logging: it may drop the document. -/
theorem handleFlushError_frame (nodeId : NodeId) (failure : Failure) :
    s.mem.Removes (s.handleFlushError nodeId failure).mem ∧
    (s.handleFlushError nodeId failure).loader = s.loader ∧
    (s.handleFlushError nodeId failure).queue = s.queue ∧
    (s.handleFlushError nodeId failure).saves = s.saves ∧
    (s.handleFlushError nodeId failure).nextSave = s.nextSave ∧
    (s.handleFlushError nodeId failure).nodes = s.nodes ∧
    (s.handleFlushError nodeId failure).redis.store = s.redis.store ∧
    ((s.handleFlushError nodeId failure).redis.commands = s.redis.commands ∨
      (s.handleFlushError nodeId failure).redis.commands = s.redis.commands ++ [.del nodeId]) := by
  cases failure with
  | nodeGone gone =>
      exact ⟨Memory.removes_drop _ _, rfl, rfl, rfl, rfl, rfl, rfl, Or.inr rfl⟩
  | _ =>
      exact ⟨⟨fun _ => Or.inl rfl, rfl, rfl⟩, rfl, rfl, rfl, rfl, rfl, rfl, Or.inl rfl⟩

/-- How `appendMarkdown` resumes, with its edit and its flush by what they leave alone. -/
theorem resumeAppend_step {t : TaskId} {clientId : ClientId}
    (h : s.resumeAppend lex t clientId = some s') :
    ∃ entry await ws markdown userId, s.queue.task t = some entry ∧
      entry.payload.phase = .loadingDoc await ∧
      entry.payload.kind = .appendMarkdown ws markdown userId ∧
      ((∃ failure, (s.awaited await = some (.error failure) ∨
            ∃ r, s.awaited await = some (.ok r) ∧
              lex.append clientId (s.mem.heap r).doc markdown = none) ∧
          s' = (s.finishAwait entry.key await).setTask t
            { entry.payload with phase := .settled (.error failure) }) ∨
        ∃ r result mem, s.awaited await = some (.ok r) ∧
          lex.append clientId (s.mem.heap r).doc markdown = some result ∧
          s.mem.Edits mem r result.added ∧
          let s₁ : State := { s.finishAwait entry.key await with mem := mem }
          let x : Task := { entry.payload with
            inserted := some result.added
            update := some (encodeStateAsUpdate (applyUpdate (s.mem.heap r).doc result.added)
              (encodeStateVector (s.mem.heap r).doc)) }
          (s.mem.docs entry.key = none ∧
              s' = s₁.setTask t { x with phase := .settled (.error .undefinedEntry) }) ∨
            (s.mem.docs entry.key ≠ none ∧ FlushStep s₁ t x entry.key s')) := by
  obtain ⟨entry, await, ws, markdown, userId, htask, hphase, hkind, hcase⟩ :=
    resumeAppend_cases s h
  refine ⟨entry, await, ws, markdown, userId, htask, hphase, hkind, hcase.imp_right ?_⟩
  rintro ⟨r, result, hawait, happend, ⟨hnone, rfl⟩ | ⟨r', hsome, rfl⟩⟩
  · exact ⟨r, result, _, hawait, happend, Memory.edits_modify s.mem r result.added,
      Or.inl ⟨hnone, rfl⟩⟩
  · refine ⟨r, result, _, hawait, happend, ?_,
      Or.inr ⟨by simp [hsome], flushDocLocked_step _ _ _ _ _⟩⟩
    exact (Memory.edits_modify s.mem r result.added).trans_sameDocs
      (Memory.sameDocs_modify _ r' _ (fun _ => rfl) (fun _ => rfl) (fun _ => rfl))

/-- A caller that resumes may drop the document of a deleted node, and a worker
of `flushAll` may submit its next flush. -/
theorem resumeTask_step {t : TaskId} (h : s.resumeTask t = some s') :
    ∃ entry result s₁, s.queue.task t = some entry ∧
      entry.payload.phase = .settled result ∧
      s.mem.Removes s₁.mem ∧ s₁.loader = s.loader ∧
      s₁.queue = (s.queue.dropTail t).advance t
        { entry.payload with phase := .returned result } ∧
      s₁.saves = s.saves ∧ s₁.nextSave = s.nextSave ∧ s₁.nodes = s.nodes ∧
      s₁.redis.store = s.redis.store ∧
      (s₁.redis.commands = s.redis.commands ∨
        s₁.redis.commands = s.redis.commands ++ [.del entry.key]) ∧
      Submits s₁ s' := by
  obtain ⟨entry, result, htask, hphase, hcase⟩ := resumeTask_cases s h
  let s₁ : State := State.setTask { s with queue := s.queue.dropTail t } t
    { entry.payload with phase := .returned result }
  have hkeep : s.mem.Removes s₁.mem := ⟨fun _ => Or.inl rfl, rfl, rfl⟩
  rcases hcase with ⟨ws, markdown, userId, -, rfl⟩ | ⟨caller, s₂, -, hresult, hcaller⟩
  · exact ⟨entry, result, s₁, htask, hphase, hkeep, rfl, rfl, rfl, rfl, rfl, rfl,
      Or.inl rfl, .refl s₁⟩
  · have hsubmits : Submits s₂ s' := by
      rcases hcaller with ⟨call, -, rfl⟩ | ⟨-, rfl⟩
      · exact submits_nextFlush _ _
      · exact .refl _
    rcases hresult with ⟨persisted, -, rfl⟩ | ⟨failure, -, rfl⟩
    · exact ⟨entry, result, s₁, htask, hphase, hkeep, rfl, rfl, rfl, rfl, rfl, rfl,
        Or.inl rfl, hsubmits⟩
    · obtain ⟨hmem, hloader, hqueue, hsaves, hnext, hnodes, hstore, hcmds⟩ :=
        handleFlushError_frame s₁ entry.key failure
      exact ⟨entry, result, _, htask, hphase, hmem, hloader, hqueue, hsaves, hnext, hnodes,
        hstore, hcmds, hsubmits⟩

/-- The documents when a caller has resumed: a flush of a deleted node has dropped its own. -/
theorem mem_resumeTask {t : TaskId} (h : s.resumeTask t = some s') :
    ∃ entry, s.queue.task t = some entry ∧
      (s'.mem = s.mem ∨ (∃ caller, entry.payload.kind = .flushDoc caller) ∧
        s'.mem = s.mem.drop entry.key) := by
  obtain ⟨entry, result, htask, -, hcase⟩ := resumeTask_cases s h
  refine ⟨entry, htask, ?_⟩
  rcases hcase with ⟨ws, markdown, userId, -, rfl⟩ | ⟨caller, s₂, hkind, hresult, hcaller⟩
  · exact Or.inl rfl
  · have hmem : s'.mem = s₂.mem := by
      rcases hcaller with ⟨call, -, rfl⟩ | ⟨-, rfl⟩
      · exact (submits_nextFlush s₂ call).mem
      · rfl
    rcases hresult with ⟨persisted, -, rfl⟩ | ⟨failure, -, rfl⟩
    · exact Or.inl hmem
    · cases failure with
      | nodeGone n => exact Or.inr ⟨⟨caller, hkind⟩, hmem⟩
      | _ => exact Or.inl hmem

end State

end AideepWebsocket.DocManager
