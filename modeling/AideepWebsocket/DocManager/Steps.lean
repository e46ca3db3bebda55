import AideepWebsocket.DocManager.Frames

/-!
# What a step of YjsDocManager can do

`step_cases` says once what an event can do to the state; the proofs about runs
start from it, or from the inversion lemmas that follow, and never unfold
`step`.  The inversion lemmas read off one component each:

* `step_mem` — the documents: they are left alone, one is edited, one is put
  into `docs`, some are removed, or a save is recorded in one (`MemStep`);
* `step_saves` — the `saveToDb` calls: one is made, one commits its row, one
  moves on, or the process is gone (`SaveStep`);
* `step_row` — the `yjs_state` column: only `updateNodeRow` writes it;
* `step_task` — the tasks of the queue (`TaskStep`).

`stores_of_local` lists the events that leave both stores alone, `mem_of_keepsMemory` those
that leave the documents and the timers alone.
-/

namespace AideepWebsocket.DocManager

open Library

variable {lex : Lexical} {s s' : State} {e : Event}

/-- The document that `loadDoc` puts into `docs` when it resumes. -/
def LoadPhase.document : LoadPhase → Option YDoc
  | .redisAnswered (some state) => some state
  | .dbAnswered (some ⟨some state, _⟩) => some state
  | .dbAnswered _ => some ⊥
  | _ => none

/-- The `yjs_state` column of a node. -/
def State.row (s : State) (n : NodeId) : Option YDoc := (s.nodes n).bind NodeRow.yjsState

/-- The queue, the saves and the stores are left alone, and no snapshot is sent
to Redis. -/
structure State.SameWork (s s' : State) : Prop where
  queue : s'.queue = s.queue
  saves : s'.saves = s.saves
  nextSave : s'.nextSave = s.nextSave
  nodes : s'.nodes = s.nodes
  store : s'.redis.store = s.redis.store
  sets : ∀ {n state t}, .set n state t ∈ s'.redis.commands → .set n state t ∈ s.redis.commands

/-- How a load goes on before it ends. -/
inductive State.LoadMoves (lex : Lexical) (s : State) (e : Event) (l : LoadId) (x : Load) :
    LoadPhase → Prop
  | redis (reply : Reply) (rest : List RedisCommand) (he : e = .redisReply reply)
      (hcmds : s.redis.commands = .get l :: rest) (hphase : x.phase = .loadFromRedis) :
      State.LoadMoves lex s e l x (.redisAnswered
        (if reply = .ok then (s.redis.store x.nodeId).map Cached.state else none))
  | miss (he : e = .continueLoad l) (hphase : x.phase = .redisAnswered none) :
      State.LoadMoves lex s e l x .loadFromDb
  | db (ok : Bool) (clientId : ClientId) (he : e = .dbReply l ok clientId)
      (hphase : x.phase = .loadFromDb) :
      State.LoadMoves lex s e l x
        (if ok then .dbAnswered (s.loadFromDb lex x.nodeId clientId) else .rejected .database)

/-- What an event can do. -/
inductive StepCase (lex : Lexical) (s : State) (e : Event) (s' : State) : Prop
  /-- Clients come and go, timers are set, flushes are submitted. -/
  | schedule (hmem : s.mem.SameDocs s'.mem)
      (hsubmits : State.Submits { s with mem := s'.mem } s')
  | submitAppend (n : NodeId) (ws : WorkspaceId) (markdown : String) (userId : UserId)
      (he : e = .appendMarkdown n ws markdown userId)
      (hs' : s' = s.runExclusive n (.appendMarkdown ws markdown userId))
  /-- A caller asks for a document, and a load may start. -/
  | get (n : NodeId) (ws : WorkspaceId) (he : e = .getOrCreateDoc n ws)
      (hmem : s.mem.SameDocs s'.mem) (hwork : s.SameWork s')
      (hloader : s'.loader = ((s.getOrCreateDoc n ws).1.addGet n (s.getOrCreateDoc n ws).2).loader)
  | resumeGet (get : ℕ) (c : GetCall) (he : e = .resumeGet get)
      (hget : s.loader.gets get = some c) (hawaited : s.awaited c.await ≠ none)
      (hmem : s'.mem = s.mem) (hwork : s.SameWork s')
      (hloader : s'.loader = ((s.finishAwait c.nodeId c.await).removeGet get).loader)
  /-- A load goes on. -/
  | loadMoved (l : LoadId) (x : Load) (phase : LoadPhase) (hload : s.loader.loads l = some x)
      (hmoves : s.LoadMoves lex e l x phase) (hmem : s'.mem = s.mem) (hwork : s.SameWork s')
      (hloader : s'.loader = s.loader.setPhase l phase)
  /-- A load ends. -/
  | put (l : LoadId) (x : Load) (doc : YDoc) (ws : WorkspaceId) (he : e = .continueLoad l)
      (hload : s.loader.loads l = some x) (hdoc : x.phase.document = some doc)
      (hmem : s'.mem = s.mem.put x.nodeId (ManagedDoc.loaded doc ws)) (hwork : s.SameWork s')
      (hloader : s'.loader = s.loader.setPhase l (.resolved s.mem.nextRef))
  /-- A sync message edits a document. -/
  | edit (n : NodeId) (r : DocRef) (u : YDoc) (he : e = .applyToDoc n u)
      (hdocs : s.mem.docs n = some r) (hmem : s.mem.Edits s'.mem r u) (hwork : s.SameWork s')
      (hloader : s'.loader = s.loader)
  /-- Documents are evicted, cleaned up, or cleared at the end. -/
  | remove (hmem : s.mem.Removes s'.mem) (hwork : s.SameWork s') (hloader : s'.loader = s.loader)
  | startFlush (t : TaskId) (entry : ChainTask NodeId Task) (caller : FlushCaller)
      (he : e = .startTask t) (htask : s.queue.task t = some entry)
      (hphase : entry.payload.phase = .queued) (hready : s.queue.ready entry = true)
      (hkind : entry.payload.kind = .flushDoc caller)
      (hflush : s.FlushStep t entry.payload entry.key s')
  | startAppend (t : TaskId) (entry : ChainTask NodeId Task) (ws : WorkspaceId) (await : Await)
      (he : e = .startTask t) (htask : s.queue.task t = some entry)
      (hphase : entry.payload.phase = .queued) (hready : s.queue.ready entry = true)
      (hawait : await = (s.getOrCreateDoc entry.key ws).2) (hmem : s.mem.SameDocs s'.mem)
      (hwork : ({ s with
        queue := s.queue.advance t { entry.payload with phase := .loadingDoc await } } :
          State).SameWork s')
      (hloader : s'.loader = (s.getOrCreateDoc entry.key ws).1.loader)
  /-- The load that an append awaits, or its conversion, has failed. -/
  | appendFailed (t : TaskId) (clientId : ClientId) (entry : ChainTask NodeId Task)
      (await : Await) (failure : Failure) (he : e = .resumeAppend t clientId)
      (htask : s.queue.task t = some entry) (hphase : entry.payload.phase = .loadingDoc await)
      (ws : WorkspaceId) (markdown : String) (userId : UserId)
      (hkind : entry.payload.kind = .appendMarkdown ws markdown userId)
      (hfailed : s.awaited await = some (.error failure) ∨
        ∃ r, s.awaited await = some (.ok r) ∧
          lex.append clientId (s.mem.heap r).doc markdown = none) (hmem : s'.mem = s.mem)
      (hwork : ({ s with
        queue := s.queue.advance t { entry.payload with phase := .settled (.error failure) } } :
          State).SameWork s')
      (hloader : s'.loader = (s.finishAwait entry.key await).loader)
  /-- An append edits the document, and flushes it if it is still managed. -/
  | appended (t : TaskId) (clientId : ClientId) (entry : ChainTask NodeId Task) (await : Await)
      (ws : WorkspaceId) (markdown : String) (userId : UserId) (r : DocRef)
      (result : AppendResult) (x : Task) (s₁ : State) (he : e = .resumeAppend t clientId)
      (htask : s.queue.task t = some entry) (hphase : entry.payload.phase = .loadingDoc await)
      (hkind : entry.payload.kind = .appendMarkdown ws markdown userId)
      (hawait : s.awaited await = some (.ok r))
      (hresult : lex.append clientId (s.mem.heap r).doc markdown = some result)
      (hmem : s.mem.Edits s₁.mem r result.added) (hwork : s.SameWork s₁)
      (hloader : s₁.loader = (s.finishAwait entry.key await).loader)
      (hx : x = { entry.payload with inserted := x.inserted, update := x.update })
      (hinserted : x.inserted = some result.added)
      (hflush : (s.mem.docs entry.key = none ∧
          s' = s₁.setTask t { x with phase := .settled (.error .undefinedEntry) }) ∨
        (s.mem.docs entry.key ≠ none ∧ s₁.FlushStep t x entry.key s'))
      (hupdate : x.update = some (encodeStateAsUpdate
        (applyUpdate (s.mem.heap r).doc result.added) (encodeStateVector (s.mem.heap r).doc)))
  /-- A flush resumes after its stores have answered. -/
  | continueFlush (t : TaskId) (entry : ChainTask NodeId Task) (mem : Memory) (phase : Phase)
      (he : e = .continueFlush t) (htask : s.queue.task t = some entry)
      (hs' : s' = ({ s with mem := mem } : State).setTask t { entry.payload with phase := phase })
      (hcase :
        (mem = s.mem ∧ ∃ r persisted, entry.payload.phase = .refreshing r persisted (some true) ∧
          phase = .settled (.ok persisted)) ∨
        (mem = s.mem ∧ (∃ r persisted, entry.payload.phase = .refreshing r persisted (some false)) ∧
          phase = .settled (.error .redis)) ∨
        (mem = s.mem ∧ ∃ r save sv redis failure,
          entry.payload.phase = .saving r save sv redis (some failure) ∧
          phase = .settled (.error failure)) ∨
        ∃ r save sv persisted, entry.payload.phase = .saving r save sv (some true) none ∧
          (s.saves save).map SaveCall.phase = some (.resolved persisted) ∧
          s.mem.Records mem r sv persisted ∧
          (phase = .settled (.ok persisted) ∨ ∃ job, phase = .embedding r persisted job))
  | embedded (t : TaskId) (entry : ChainTask NodeId Task) (r : DocRef) (persisted : Persisted)
      (job : EmbedJob) (htask : s.queue.task t = some entry)
      (hphase : entry.payload.phase = .embedding r persisted job) (hmem : s'.mem = s.mem)
      (hwork : ({ s with
        queue := s.queue.advance t { entry.payload with phase := .settled (.ok persisted) } } :
          State).SameWork s')
      (hloader : s'.loader = s.loader)
  /-- The caller of a task resumes. -/
  | returned (t : TaskId) (entry : ChainTask NodeId Task)
      (result : Except Failure Persisted) (s₁ : State) (he : e = .resumeTask t)
      (htask : s.queue.task t = some entry) (hphase : entry.payload.phase = .settled result)
      (hmem : s.mem.Removes s₁.mem)
      (hwork : ({ s with
        queue := (s.queue.dropTail t).advance t
          { entry.payload with phase := .returned result } } : State).SameWork s₁)
      (hloader : s₁.loader = s.loader) (hsubmits : State.Submits s₁ s')
  /-- A snapshot reaches Redis, or does not, and the task that awaits it learns
  the reply. -/
  | redisSet (reply : Reply) (n : NodeId) (state : YDoc) (t : TaskId)
      (rest : List RedisCommand) (he : e = .redisReply reply)
      (hcmds : s.redis.commands = .set n state t :: rest)
      (hs' : s' = ({ s with redis := ⟨if reply.executed then
          Function.update s.redis.store n (some ⟨state, t⟩) else s.redis.store, rest⟩ } :
          State).saveToRedisReply t (reply = .ok))
  /-- A key of Redis is deleted, or expires; or a `GET` answers nobody. -/
  | uncached (n : NodeId) (store : NodeId → Option Cached)
      (hstore : store = s.redis.store ∨ store = Function.update s.redis.store n none)
      (hmem : s'.mem = s.mem)
      (hwork : ({ s with redis := ⟨store, s.redis.commands⟩ } : State).SameWork s')
      (hloader : s'.loader = s.loader)
  | commit (save : SaveId) (c : SaveCall) (reply : Reply) (now : ℕ) (row : NodeRow)
      (he : e = .updateNodeRow save reply now) (hexecuted : reply.executed = true)
      (hsave : s.saves save = some c) (hphase : c.phase = .updateNodeRow)
      (hrow : s.nodes c.nodeId = some row)
      (hs' : let s₁ : State := { s with
          nodes := Function.update s.nodes c.nodeId (some (State.writtenRow row c now)) }
        s' = s₁.setSave save c
            (.syncNodeAttachments ⟨(State.writtenRow row c now).version, now⟩) ∨
          s' = s₁.rejectSave save c true .database)
  /-- A save goes on without touching its row. -/
  | saveMoved (save : SaveId) (c : SaveCall) (hsave : s.saves save = some c)
      (hcase : (c.phase = .updateNodeRow ∧
          ∃ failure, s' = s.rejectSave save c false failure) ∨
        ∃ persisted, c.phase = .syncNodeAttachments persisted ∧
          (s' = s.setSave save c (.resolved persisted) ∨
            s' = s.rejectSave save c true .database))
  /-- Another writer of the table. -/
  | otherWriter (nodes : NodeId → Option NodeRow) (hs' : s' = { s with nodes := nodes })
      (hrows : ∀ n, s'.row n = s.row n ∨ e = .deleteNode n ∧ s'.row n = none)
      (hwriter : ∀ {n row}, s'.nodes n = some row → s.nodes n = some row ∨ e = .writeNode n row)
  | restart (he : e = .restart) (hs' : s' = s.restart)

private theorem sameWork_of_eq (hqueue : s'.queue = s.queue) (hsaves : s'.saves = s.saves)
    (hnext : s'.nextSave = s.nextSave) (hnodes : s'.nodes = s.nodes)
    (hredis : s'.redis = s.redis) : s.SameWork s' :=
  ⟨hqueue, hsaves, hnext, hnodes, by rw [hredis], by rw [hredis]; exact id⟩

private theorem stepCase_continueLoad {l : LoadId} (h : s.continueLoad l = some s') :
    StepCase lex s (.continueLoad l) s' := by
  have hbot : ∀ state : YDoc, applyUpdate ⊥ state = state := fun _ => bot_sup_eq _
  have hwork : ∀ x state ws, s.SameWork (s.finishLoad l x state ws) :=
    fun _ _ _ => sameWork_of_eq rfl rfl rfl rfl rfl
  obtain ⟨x, hload, ⟨hphase, rfl⟩ | ⟨state, ws, rfl, hcase⟩⟩ := State.continueLoad_cases s h
  · exact .loadMoved l x _ hload (.miss rfl hphase) rfl (sameWork_of_eq rfl rfl rfl rfl rfl) rfl
  · rcases hcase with ⟨hphase, hsome, -⟩ | ⟨u, hphase, rfl⟩ | ⟨hphase, rfl, -⟩
    · obtain ⟨u, rfl⟩ := Option.ne_none_iff_exists'.mp hsome
      refine .put l x u ws rfl hload (by rw [hphase]; rfl) ?_ (hwork _ _ _) rfl
      simp [State.finishLoad, hbot]
    · refine .put l x u ws rfl hload (by rw [hphase]; rfl) ?_ (hwork _ _ _) rfl
      simp [State.finishLoad, hbot]
    · refine .put l x ⊥ ws rfl hload ?_ rfl (hwork _ _ _) rfl
      rcases hphase with hphase | ⟨ws', hphase⟩ <;> rw [hphase] <;> rfl

/-- **What a step can do.** -/
theorem step_cases (h : step lex s e = some s') : StepCase lex s e s' := by
  cases e with
  | getOrCreateDoc nodeId workspaceId =>
      obtain ⟨hmem, hqueue, hsaves, hnext, hnodes, hstore, hsets⟩ :=
        State.getOrCreateDoc_frame s nodeId workspaceId
      simp only [step] at h
      cases h
      exact .get nodeId workspaceId rfl hmem ⟨hqueue, hsaves, hnext, hnodes, hstore, hsets⟩ rfl
  | resumeGet get =>
      simp only [step] at h
      split at h
      · cases h
      · next c hget =>
          split at h
          · cases h
          · next hawaited =>
              cases h
              exact .resumeGet get c rfl hget (by simp [hawaited]) (by simp [State.removeGet])
                (sameWork_of_eq (by simp [State.removeGet]) (by simp [State.removeGet])
                  (by simp [State.removeGet]) (by simp [State.removeGet])
                  (by simp [State.removeGet])) rfl
  | addClient nodeId socketId =>
      cases h
      exact .schedule (Memory.sameDocs_addClient _ _ _) (.refl _)
  | removeClient nodeId socketId =>
      cases h
      obtain ⟨mem, hmem, hsub⟩ := State.submits_removeClient s nodeId socketId
      have hmem' : (s.removeClient nodeId socketId).mem = mem := hsub.mem
      exact .schedule (hmem' ▸ hmem) (by rw [hmem']; exact hsub)
  | applyToDoc nodeId update =>
      cases h
      show StepCase lex s _ { s with mem := s.mem.applyToDoc nodeId update }
      cases hdocs : s.mem.docs nodeId with
      | none =>
          refine .schedule ?_ (.refl _)
          simp [Memory.applyToDoc, hdocs, Memory.SameDocs.refl]
      | some r =>
          refine .edit nodeId r update rfl hdocs ?_ (sameWork_of_eq rfl rfl rfl rfl rfl) rfl
          simp only [Memory.applyToDoc, hdocs]
          exact Memory.edits_modify _ _ _
  | scheduleSave nodeId userId =>
      cases h
      exact .schedule (Memory.sameDocs_scheduleSave _ _ _) (.refl _)
  | appendMarkdown nodeId workspaceId markdown userId =>
      cases h
      exact .submitAppend nodeId workspaceId markdown userId rfl rfl
  | cleanupNode nodeId =>
      cases h
      exact .remove (Memory.removes_drop _ _)
        ⟨rfl, rfl, rfl, rfl, rfl, fun hset => by simpa [State.cleanupNode] using hset⟩ rfl
  | flushInterval =>
      simp only [step] at h
      split at h
      · cases h
        have hsub := State.submits_flushAll s
        exact .schedule (hsub.mem ▸ .refl _) (by rw [hsub.mem]; exact hsub)
      · cases h
  | onModuleDestroy =>
      simp only [step] at h
      split at h
      · cases h
        have hsub := State.submits_flushAll s
        have hmem : s.onModuleDestroy.mem = s.mem := hsub.mem
        refine .schedule (hmem ▸ .refl _) ?_
        rw [hmem]
        exact ⟨hsub.mem, hsub.loader, hsub.saves, hsub.nextSave, hsub.nodes, hsub.redis,
          hsub.keeps, hsub.fresh⟩
      · cases h
  | finishDestroy =>
      obtain ⟨call, -, rfl⟩ := State.finishDestroy_cases s h
      exact .remove ⟨fun _ => Or.inr rfl, rfl, rfl⟩ (sameWork_of_eq rfl rfl rfl rfl rfl) rfl
  | fireTimer timer =>
      obtain ⟨nodeId, ⟨-, rfl⟩ | ⟨-, rfl⟩⟩ := State.fireTimer_cases s h
      · exact .schedule (Memory.sameDocs_clearTimeout s.mem (some timer))
          (State.submits_flushDoc _ nodeId .saveTimer)
      · have hevict := Memory.removes_evictDoc (s.mem.clearTimeout (some timer)) nodeId
        exact .remove ⟨hevict.docs, hevict.nextRef, hevict.heap⟩
          (sameWork_of_eq rfl rfl rfl rfl rfl) rfl
  | continueLoad l => exact stepCase_continueLoad h
  | dbReply l ok clientId =>
      obtain ⟨nodeId, workspaceId, hload, rfl⟩ := State.dbReply_cases s h
      exact .loadMoved l _ _ hload (.db ok clientId rfl rfl) rfl
        (sameWork_of_eq rfl rfl rfl rfl rfl) rfl
  | startTask t =>
      obtain ⟨entry, htask, hphase, hready, ⟨⟨caller, hkind⟩, hflush⟩ |
        ⟨ws, markdown, userId, hkind, rfl⟩⟩ := State.startTask_step s h
      · exact .startFlush t entry caller rfl htask hphase hready hkind hflush
      · obtain ⟨hmem, hqueue, hsaves, hnext, hnodes, hstore, hsets⟩ :=
          State.getOrCreateDoc_frame s entry.key ws
        refine .startAppend t entry ws (s.getOrCreateDoc entry.key ws).2 rfl htask hphase hready
          rfl hmem ⟨?_, hsaves, hnext, hnodes, hstore, hsets⟩ rfl
        show (State.getOrCreateDoc s entry.key ws).1.queue.advance t _ = _
        rw [hqueue]
  | resumeAppend t clientId =>
      obtain ⟨entry, await, ws, markdown, userId, htask, hphase, hkind, hcase⟩ :=
        State.resumeAppend_step s h
      rcases hcase with ⟨failure, hfailed, rfl⟩ |
        ⟨r, result, mem, hawait, hresult, hedit, hflush⟩
      · exact .appendFailed t clientId entry await failure rfl htask hphase ws markdown userId
          hkind hfailed (by simp)
          (sameWork_of_eq (by simp) (by simp) (by simp) (by simp) (by simp)) rfl
      · exact .appended t clientId entry await ws markdown userId r result _
          { s.finishAwait entry.key await with mem := mem } rfl htask hphase hkind hawait hresult
          hedit (sameWork_of_eq (by simp) (by simp) (by simp) (by simp) (by simp)) rfl rfl rfl
          hflush rfl
  | continueFlush t =>
      obtain ⟨entry, mem, phase, htask, hs', hcase⟩ := State.continueFlush_step s h
      exact .continueFlush t entry mem phase rfl htask hs' hcase
  | enqueued t ok =>
      obtain ⟨entry, r, persisted, job, htask, hphase, rfl⟩ := State.enqueued_cases s h
      exact .embedded t entry r persisted job htask hphase rfl
        (sameWork_of_eq rfl rfl rfl rfl rfl) rfl
  | resumeTask t =>
      obtain ⟨entry, result, s₁, htask, hphase, hmem, hloader, hqueue, hsaves, hnext, hnodes,
        hstore, hcmds, hsub⟩ := State.resumeTask_step s h
      refine .returned t entry result s₁ rfl htask hphase hmem
        ⟨hqueue, hsaves, hnext, hnodes, hstore, fun hset => ?_⟩ hloader hsub
      rcases hcmds with hcmds | hcmds <;> simpa [hcmds] using hset
  | redisReply reply =>
      obtain ⟨cmd, rest, hcmds, hcase⟩ := State.redisReply_cases s h
      have hrest : ∀ {n state t}, .set n state t ∈ rest → .set n state t ∈ s.redis.commands :=
        fun hset => hcmds ▸ List.mem_cons_of_mem _ hset
      rcases hcase with ⟨l, rfl, ⟨nodeId, workspaceId, hload, rfl⟩ | rfl⟩ | ⟨n, state, t, rfl, rfl⟩ |
        ⟨n, rfl, rfl⟩
      · exact .loadMoved l _ _ hload (.redis reply rest rfl hcmds rfl) rfl
          ⟨rfl, rfl, rfl, rfl, rfl, hrest⟩ rfl
      · exact .uncached 0 _ (Or.inl rfl) rfl ⟨rfl, rfl, rfl, rfl, rfl, hrest⟩ rfl
      · exact .redisSet reply n state t rest rfl hcmds rfl
      · refine .uncached n _ ?_ rfl ⟨rfl, rfl, rfl, rfl, rfl, hrest⟩ rfl
        split
        · exact Or.inr rfl
        · exact Or.inl rfl
  | redisExpire nodeId =>
      cases h
      exact .uncached nodeId _ (Or.inr rfl) rfl ⟨rfl, rfl, rfl, rfl, rfl, id⟩ rfl
  | updateNodeRow save reply now =>
      obtain ⟨c, hsave, hphase, ⟨-, rfl⟩ | ⟨-, -, rfl⟩ | ⟨row, hexecuted, hrow, hcase⟩⟩ :=
        State.updateNodeRow_cases s h
      · exact .saveMoved save c hsave (Or.inl ⟨hphase, _, rfl⟩)
      · exact .saveMoved save c hsave (Or.inl ⟨hphase, _, rfl⟩)
      · exact .commit save c reply now row rfl hexecuted hsave hphase hrow
          (hcase.imp And.right And.right)
  | attachmentsSynced save ok =>
      obtain ⟨c, persisted, hsave, hphase, hcase⟩ := State.attachmentsSynced_cases s h
      exact .saveMoved save c hsave
        (Or.inr ⟨persisted, hphase, hcase.imp And.right And.right⟩)
  | writeNode nodeId row =>
      simp only [step] at h
      split at h
      · next hwriter =>
          cases h
          refine .otherWriter _ rfl (fun n => Or.inl ?_) (fun {n row'} hrow => ?_) <;>
            by_cases hn : n = nodeId
          · subst hn
            have hstate : row.yjsState = (s.nodes n).bind NodeRow.yjsState := by
              simpa [DocManager.otherWriter] using hwriter
            simp [State.row, hstate]
          · simp [State.row, Function.update_of_ne hn]
          · subst hn
            simp only [Function.update_self, Option.some.injEq] at hrow
            exact Or.inr (by rw [hrow])
          · simp only [Function.update_of_ne hn] at hrow
            exact Or.inl hrow
      · cases h
  | deleteNode nodeId =>
      cases h
      refine .otherWriter _ rfl (fun n => ?_) (fun {n row} hrow => ?_) <;>
        by_cases hn : n = nodeId
      · subst hn
        exact Or.inr ⟨rfl, by simp [State.row]⟩
      · exact Or.inl (by simp [State.row, Function.update_of_ne hn])
      · simp [hn] at hrow
      · simp only [Function.update_of_ne hn] at hrow
        exact Or.inl hrow
  | restart =>
      cases h
      exact .restart rfl rfl

/-! ### Memory -/

/-- How an event can change the documents. -/
inductive MemStep (s : State) (e : Event) (s' : State) : Prop
  | same (hmem : s.mem.SameDocs s'.mem)
  /-- A sync message, or `appendMarkdown`, edits the object at `r`. -/
  | edit (r : DocRef) (u : YDoc)
      (horigin : (∃ n, e = .applyToDoc n u ∧ s.mem.docs n = some r) ∨
        ∃ t clientId entry await, e = .resumeAppend t clientId ∧
          s.queue.task t = some entry ∧ entry.payload.phase = .loadingDoc await ∧
          s.awaited await = some (.ok r))
      (hmem : s.mem.Edits s'.mem r u)
  /-- `loadDoc` ends. -/
  | put (l : LoadId) (x : Load) (doc : YDoc) (ws : WorkspaceId)
      (he : e = .continueLoad l) (hload : s.loader.loads l = some x)
      (hdoc : x.phase.document = some doc)
      (hmem : s'.mem = s.mem.put x.nodeId (ManagedDoc.loaded doc ws))
  | remove (hmem : s.mem.Removes s'.mem)
  /-- A flush records what it has saved. -/
  | saved (t : TaskId) (entry : ChainTask NodeId Task) (r : DocRef) (save : SaveId)
      (sv : StateVector) (p : Persisted) (htask : s.queue.task t = some entry)
      (hphase : entry.payload.phase = .saving r save sv (some true) none)
      (hsave : (s.saves save).map SaveCall.phase = some (.resolved p))
      (hmem : s.mem.Records s'.mem r sv p)

private theorem MemStep.of_eq (h : s'.mem = s.mem) : MemStep s e s' :=
  .same (h ▸ .refl _)

/-- **The documents.**  Every event leaves them alone, edits one, puts one into
`docs`, removes some, or records a save. -/
theorem step_mem (h : step lex s e = some s') : MemStep s e s' := by
  cases step_cases h with
  | schedule hmem _ => exact .same hmem
  | submitAppend n ws markdown userId _ hs' =>
      subst hs'
      exact .of_eq rfl
  | get n ws _ hmem => exact .same hmem
  | resumeGet get c _ _ _ hmem => exact .of_eq hmem
  | loadMoved l x phase _ _ hmem => exact .of_eq hmem
  | put l x doc ws he hload hdoc hmem _ => exact .put l x doc ws he hload hdoc hmem
  | edit n r u he hdocs hmem _ => exact .edit r u (Or.inl ⟨n, he, hdocs⟩) hmem
  | remove hmem _ => exact .remove hmem
  | startFlush t entry caller _ _ _ _ _ hflush => exact .same hflush.sameDocs
  | startAppend t entry ws await _ _ _ _ _ hmem => exact .same hmem
  | appendFailed t clientId entry await failure _ _ _ _ _ _ _ _ hmem _ => exact .of_eq hmem
  | appended t clientId entry await ws markdown userId r result x s₁ he htask hphase _ hawait
      _ hmem _ _ _ _ hflush =>
      refine .edit r result.added
        (Or.inr ⟨t, clientId, entry, await, he, htask, hphase, hawait⟩) ?_
      rcases hflush with ⟨-, rfl⟩ | ⟨-, hflush⟩
      · exact hmem
      · exact hmem.trans_sameDocs hflush.sameDocs
  | continueFlush t entry mem phase _ htask hs' hcase =>
      subst hs'
      rcases hcase with ⟨rfl, -⟩ | ⟨rfl, -⟩ | ⟨rfl, -⟩ |
        ⟨r, save, sv, persisted, hphase, hsave, hrecord, -⟩
      · exact .of_eq rfl
      · exact .of_eq rfl
      · exact .of_eq rfl
      · exact .saved t entry r save sv persisted htask hphase hsave hrecord
  | embedded t entry r persisted job _ _ hmem _ => exact .of_eq hmem
  | returned t entry result s₁ _ _ _ hmem _ _ hsub =>
      exact .remove (by rw [hsub.mem]; exact hmem)
  | redisSet reply n state t rest _ _ hs' =>
      subst hs'
      exact .of_eq (by simp)
  | uncached n store _ hmem _ => exact .of_eq hmem
  | commit save c reply now row _ _ _ _ _ hs' =>
      rcases hs' with rfl | rfl <;> exact .of_eq (by simp)
  | saveMoved save c _ hcase =>
      rcases hcase with ⟨-, failure, rfl⟩ | ⟨persisted, -, rfl | rfl⟩ <;>
        exact .of_eq (by simp)
  | otherWriter nodes hs' _ =>
      subst hs'
      exact .of_eq rfl
  | restart _ hs' =>
      subst hs'
      exact .remove ⟨fun _ => Or.inr rfl, rfl, rfl⟩

/-! ### Saves and rows -/

/-- In this step a flush calls `saveToDb`: it has captured the document that
`docs` holds, its task awaits the call, and no other task of the node is
running. -/
structure SaveCalled (s : State) (e : Event) (s' : State) (c : SaveCall) : Prop where
  event : e = .startTask c.task ∨ ∃ clientId, e = .resumeAppend c.task clientId
  saves : s'.saves = Function.update s.saves s.nextSave (some c)
  nextSave : s'.nextSave = s.nextSave + 1
  phase : c.phase = .updateNodeRow
  docs : s'.mem.docs c.nodeId = some c.ref
  state : c.state = (s'.mem.heap c.ref).doc
  changed : (s'.mem.heap c.ref).unchanged = false
  before : ∃ entry, s.queue.task c.task = some entry ∧ entry.key = c.nodeId ∧
    (entry.payload.phase = .queued ∨ ∃ await, entry.payload.phase = .loadingDoc await)
  alone : ∀ {j entry}, s.queue.task j = some entry → entry.key = c.nodeId →
    entry.payload.stage = .running → j = c.task
  task : ∃ entry, s'.queue.task c.task = some entry ∧ entry.key = c.nodeId ∧
    entry.payload.phase = .saving c.ref s.nextSave (encodeStateVector c.state) none none ∧
    entry.payload.captured = some c.state
  row : ∀ n, s'.row n = s.row n

/-- How an event can change the `saveToDb` calls. -/
inductive SaveStep (s : State) (e : Event) (s' : State) : Prop
  | same (hsaves : s'.saves = s.saves) (hnext : s'.nextSave = s.nextSave)
      (hrow : ∀ n, s'.row n = s.row n ∨ e = .deleteNode n ∧ s'.row n = none)
  | call (c : SaveCall) (hcall : SaveCalled s e s' c)
  /-- The transaction of a call commits. -/
  | commit (save : SaveId) (c : SaveCall) (reply : Reply) (now : ℕ) (phase : SavePhase)
      (he : e = .updateNodeRow save reply now) (hexecuted : reply.executed = true)
      (hsave : s.saves save = some c) (hphase : c.phase = .updateNodeRow)
      (hcommitted : phase.committed = true)
      (hsaves : s'.saves = Function.update s.saves save (some { c with phase := phase }))
      (hnext : s'.nextSave = s.nextSave)
      (hrow : ∀ n, s'.row n = if n = c.nodeId then some c.state else s.row n)
  /-- A call goes on without touching its row. -/
  | move (save : SaveId) (c : SaveCall) (phase : SavePhase)
      (hsave : s.saves save = some c) (hpending : c.phase.pending = true)
      (hphase : phase ≠ .updateNodeRow) (hcommitted : phase.committed = c.phase.committed)
      (hsaves : s'.saves = Function.update s.saves save (some { c with phase := phase }))
      (hnext : s'.nextSave = s.nextSave) (hrow : ∀ n, s'.row n = s.row n)
  | restart (he : e = .restart)
      (hsaves : ∀ save, s'.saves save = (s.saves save).map fun c =>
        if c.phase.pending then { c with phase := .rejected c.phase.committed } else c)
      (hnext : s'.nextSave = s.nextSave) (hrow : ∀ n, s'.row n = s.row n)

private theorem row_congr (h : s'.nodes = s.nodes) (n : NodeId) : s'.row n = s.row n := by
  rw [State.row, State.row, h]

private theorem SaveStep.of_eq (hsaves : s'.saves = s.saves) (hnext : s'.nextSave = s.nextSave)
    (hnodes : s'.nodes = s.nodes) : SaveStep s e s' :=
  .same hsaves hnext fun n => Or.inl (row_congr hnodes n)

/-- A flush that calls `saveToDb` has captured the document in `docs`; its task
awaits that call. -/
private theorem State.FlushStep.saveStep {s₀ : State} {t : TaskId} {x : Task}
    {entry : ChainTask NodeId Task} (h : s.FlushStep t x entry.key s')
    (he : e = .startTask t ∨ ∃ clientId, e = .resumeAppend t clientId)
    (hwork : s₀.SameWork s) (htask : s.queue.task t = some entry)
    (hphase : entry.payload.phase = .queued ∨ ∃ await, entry.payload.phase = .loadingDoc await)
    (hcan : ∀ p : Task, p.stage ≠ .queued → s.queue.CanAdvance entry p) :
    SaveStep s₀ e s' := by
  have hsaves := hwork.saves
  have hnext := hwork.nextSave
  cases h with
  | notLoaded => exact .of_eq hsaves hnext hwork.nodes
  | skip => exact .of_eq hsaves hnext hwork.nodes
  | throws => exact .of_eq hsaves hnext hwork.nodes
  | save r mem c hdocs hmem hchanged hnode hctask href hstate hphase' =>
      obtain rfl := hctask
      obtain rfl := href
      have hdocs' : mem.docs c.nodeId = some c.ref := by
        rw [hnode, hmem.docs, hdocs]
      have hstate' : c.state = (mem.heap c.ref).doc := by rw [hstate, hmem.doc]
      have hstage : entry.payload.stage ≠ .settled := by
        rcases hphase with hphase | ⟨await, hphase⟩ <;> simp [Task.stage, hphase, Phase.stage]
      have hsaving : Task.stage { x with
          captured := some (s.mem.heap c.ref).doc
          phase := .saving c.ref s.nextSave (encodeStateVector (s.mem.heap c.ref).doc)
            none none } ≠ .queued := by simp [Phase.stage]
      refine .call c ⟨he, by rw [hsaves, hnext], by rw [hnext], hphase', hdocs', hstate',
        by rw [hmem.unchanged, hchanged],
        ⟨entry, by rw [← hwork.queue]; exact htask, hnode.symm, hphase⟩, ?_,
        ⟨_, PromiseChain.advance_task_self htask (hcan _ hsaving), hnode.symm,
          by rw [hstate, hnext], by rw [hstate]⟩, row_congr hwork.nodes⟩
      intro j entry' hentry' hkey hrun
      rw [← hwork.queue] at hentry'
      exact PromiseChain.eq_of_running_of_canAdvance htask (hcan _ hsaving) hstage hentry' hrun
        (hkey.trans hnode)

/-- **The saves.** -/
theorem step_saves (h : step lex s e = some s') : SaveStep s e s' := by
  cases step_cases h with
  | schedule _ hsub => exact .of_eq hsub.saves hsub.nextSave hsub.nodes
  | submitAppend n ws markdown userId _ hs' =>
      subst hs'
      exact .of_eq rfl rfl rfl
  | get n ws _ _ hwork => exact .of_eq hwork.saves hwork.nextSave hwork.nodes
  | resumeGet get c _ _ _ _ hwork => exact .of_eq hwork.saves hwork.nextSave hwork.nodes
  | loadMoved l x phase _ _ _ hwork => exact .of_eq hwork.saves hwork.nextSave hwork.nodes
  | put l x doc ws _ _ _ _ hwork => exact .of_eq hwork.saves hwork.nextSave hwork.nodes
  | edit n r u _ _ _ hwork => exact .of_eq hwork.saves hwork.nextSave hwork.nodes
  | remove _ hwork => exact .of_eq hwork.saves hwork.nextSave hwork.nodes
  | startFlush t entry caller he htask hphase hready _ hflush =>
      refine hflush.saveStep (Or.inl he) (sameWork_of_eq rfl rfl rfl rfl rfl) htask (Or.inl hphase)
        fun p hp => ?_
      have hqueued : entry.payload.stage = .queued := by simp [Task.stage, hphase, Phase.stage]
      exact PromiseChain.canAdvance_of_ready hqueued hready hp
  | startAppend t entry ws await _ _ _ _ _ _ hwork =>
      exact .of_eq hwork.saves hwork.nextSave hwork.nodes
  | appendFailed t clientId entry await failure _ _ _ _ _ _ _ _ _ hwork =>
      exact .of_eq hwork.saves hwork.nextSave hwork.nodes
  | appended t clientId entry await ws markdown userId r result x s₁ he htask hphase _ _ _ _
      hwork _ _ _ hflush =>
      rcases hflush with ⟨-, rfl⟩ | ⟨-, hflush⟩
      · exact .of_eq hwork.saves hwork.nextSave hwork.nodes
      · refine hflush.saveStep (Or.inr ⟨clientId, he⟩) hwork
          (by rw [hwork.queue]; exact htask) (Or.inr ⟨await, hphase⟩) fun p hp => ?_
        have hrunning : entry.payload.stage = .running := by
          simp [Task.stage, hphase, Phase.stage]
        exact PromiseChain.canAdvance_of_running hrunning hp
  | continueFlush t entry mem phase _ _ hs' _ =>
      subst hs'
      exact .of_eq rfl rfl rfl
  | embedded t entry r persisted job _ _ _ hwork =>
      exact .of_eq hwork.saves hwork.nextSave hwork.nodes
  | returned t entry result s₁ _ _ _ _ hwork _ hsub =>
      exact .of_eq (hsub.saves.trans hwork.saves) (hsub.nextSave.trans hwork.nextSave)
        (hsub.nodes.trans hwork.nodes)
  | redisSet reply n state t rest _ _ hs' =>
      subst hs'
      exact .of_eq (by simp) (by simp) (by simp)
  | uncached n store _ _ hwork => exact .of_eq hwork.saves hwork.nextSave hwork.nodes
  | commit save c reply now row he hexecuted hsave hphase hrow hs' =>
      have hrows : ∀ s₂ : State, s₂.nodes = Function.update s.nodes c.nodeId
          (some (State.writtenRow row c now)) →
          ∀ n, s₂.row n = if n = c.nodeId then some c.state else s.row n := by
        intro s₂ hnodes n
        split
        · next hn => simp [State.row, hnodes, hn, State.writtenRow]
        · next hn => simp [State.row, hnodes, Function.update_of_ne hn]
      rcases hs' with rfl | rfl
      · exact .commit save c reply now _ he hexecuted hsave hphase rfl rfl rfl (hrows _ rfl)
      · exact .commit save c reply now (.rejected true) he hexecuted hsave hphase rfl (by simp)
          (by simp) (hrows _ (by simp))
  | saveMoved save c hsave hcase =>
      rcases hcase with ⟨hphase, failure, rfl⟩ | ⟨persisted, hphase, rfl | rfl⟩
      · exact .move save c (.rejected false) hsave (by rw [hphase]; rfl) (by simp)
          (by rw [hphase]; rfl) (by simp) (by simp) (row_congr (by simp))
      · exact .move save c (.resolved persisted) hsave (by rw [hphase]; rfl) (by simp)
          (by rw [hphase]; rfl) (by simp) (by simp) (row_congr (by simp))
      · exact .move save c (.rejected true) hsave (by rw [hphase]; rfl) (by simp)
          (by rw [hphase]; rfl) (by simp) (by simp) (row_congr (by simp))
  | otherWriter nodes hs' hrows =>
      subst hs'
      exact .same rfl rfl hrows
  | restart he hs' =>
      subst hs'
      exact .restart he (fun _ => rfl) rfl fun _ => rfl

/-- Only a call makes the counter of saves grow. -/
theorem saveCalled_of_step (h : step lex s e = some s') {c : SaveCall}
    (hnext : s'.nextSave = s.nextSave + 1) (hc : s'.saves s.nextSave = some c) :
    SaveCalled s e s' c := by
  cases step_saves h with
  | call c₀ hcall =>
      rw [hcall.saves, Function.update_self] at hc
      exact Option.some.inj hc ▸ hcall
  | same _ hnext' => omega
  | commit _ _ _ _ _ _ _ _ _ _ _ hnext' => omega
  | move _ _ _ _ _ _ _ _ hnext' => omega
  | restart _ _ hnext' => omega

/-! ### Tasks -/

/-- How an event can change task `i`: the phases of a task, with what is known
when it passes from one to the next. -/
inductive TaskStep (s : State) (e : Event) (s' : State) (i : TaskId)
    (entry : ChainTask NodeId Task) : Task → Prop
  | stay : TaskStep s e s' i entry entry.payload
  | load (await : Await) (he : e = .startTask i) (hphase : entry.payload.phase = .queued) :
      TaskStep s e s' i entry { entry.payload with phase := .loadingDoc await }
  /-- It rejects, perhaps after its flush has captured a document. -/
  | fail (x : Task) (failure : Failure) (hkind : x.kind = entry.payload.kind)
      (hstage : entry.payload.stage ≠ .settled)
      (hphase' : x.phase = .settled (.error failure))
      (hcaptured : x.captured = entry.payload.captured ∨ failure = .lexical ∧
        (e = .startTask i ∨ ∃ clientId, e = .resumeAppend i clientId) ∧
        ∃ r, s'.mem.docs entry.key = some r ∧ x.captured = some (s'.mem.heap r).doc)
      (hupdate : x.update = entry.payload.update ∨ ∃ clientId, e = .resumeAppend i clientId)
      (he : e = .startTask i ∨ (∃ clientId, e = .resumeAppend i clientId) ∨
        e = .continueFlush i) : TaskStep s e s' i entry x
  /-- Its flush finds nothing to save. -/
  | skip (x : Task) (r : DocRef) (persisted : Persisted) (hkind : x.kind = entry.payload.kind)
      (he : e = .startTask i ∨ ∃ clientId, e = .resumeAppend i clientId)
      (hphase : entry.payload.phase = .queued ∨ ∃ await, entry.payload.phase = .loadingDoc await)
      (hphase' : x.phase = .refreshing r persisted none)
      (hdocs : s'.mem.docs entry.key = some r)
      (hunchanged : (s'.mem.heap r).unchanged = true)
      (hcaptured : x.captured = some (s'.mem.heap r).doc)
      (hupdate : x.update = entry.payload.update ∨ ∃ clientId, e = .resumeAppend i clientId) :
      TaskStep s e s' i entry x
  /-- Its flush calls `saveToDb`. -/
  | save (x : Task) (c : SaveCall) (hkind : x.kind = entry.payload.kind)
      (he : e = .startTask i ∨ ∃ clientId, e = .resumeAppend i clientId)
      (hphase : entry.payload.phase = .queued ∨ ∃ await, entry.payload.phase = .loadingDoc await)
      (hphase' : x.phase =
        .saving c.ref s.nextSave (encodeStateVector c.state) none none)
      (hsave : s'.saves s.nextSave = some c) (hnode : c.nodeId = entry.key)
      (htask : c.task = i) (hdocs : s'.mem.docs entry.key = some c.ref)
      (hstate : c.state = (s'.mem.heap c.ref).doc) (hcaptured : x.captured = some c.state)
      (hupdate : x.update = entry.payload.update ∨ ∃ clientId, e = .resumeAppend i clientId) :
      TaskStep s e s' i entry x
  | refreshReplied (r : DocRef) (persisted : Persisted) (ok : Bool)
      (hphase : entry.payload.phase = .refreshing r persisted none) :
      TaskStep s e s' i entry
        { entry.payload with phase := .refreshing r persisted (some ok) }
  | saveReplied (r : DocRef) (save : SaveId) (sv : StateVector) (ok : Bool)
      (failure failure' : Option Failure)
      (hphase : entry.payload.phase = .saving r save sv none failure)
      (hok : ok = true → failure' = failure) :
      TaskStep s e s' i entry
        { entry.payload with phase := .saving r save sv (some ok) failure' }
  | saveRejected (r : DocRef) (save : SaveId) (sv : StateVector) (redis : Option Bool)
      (first : Option Failure) (failure : Failure)
      (hphase : entry.payload.phase = .saving r save sv redis first) :
      TaskStep s e s' i entry { entry.payload with
        phase := .saving r save sv redis (first.orElse fun _ => some failure) }
  | refreshed (r : DocRef) (persisted : Persisted)
      (hphase : entry.payload.phase = .refreshing r persisted (some true)) :
      TaskStep s e s' i entry { entry.payload with phase := .settled (.ok persisted) }
  /-- Both stores have answered; an embedding job may follow. -/
  | saved (r : DocRef) (save : SaveId) (sv : StateVector) (persisted : Persisted)
      (phase : Phase) (hphase : entry.payload.phase = .saving r save sv (some true) none)
      (hsave : (s.saves save).map SaveCall.phase = some (.resolved persisted))
      (hphase' : phase = .settled (.ok persisted) ∨ ∃ job, phase = .embedding r persisted job)
      (he : e = .continueFlush i) :
      TaskStep s e s' i entry { entry.payload with phase := phase }
  | embedded (r : DocRef) (persisted : Persisted) (job : EmbedJob)
      (hphase : entry.payload.phase = .embedding r persisted job) :
      TaskStep s e s' i entry { entry.payload with phase := .settled (.ok persisted) }
  | returned (result : Except Failure Persisted)
      (hphase : entry.payload.phase = .settled result) :
      TaskStep s e s' i entry { entry.payload with phase := .returned result }
  | gone (he : e = .restart) : TaskStep s e s' i entry (State.goneTask entry.payload)

/-- The object whose flush a task is carrying out. -/
def Phase.flushed : Phase → Option DocRef
  | .refreshing r _ _ | .saving r _ _ _ _ | .embedding r _ _ => some r
  | _ => none

theorem Phase.stage_of_flushed {p : Phase} {r : DocRef} (h : p.flushed = some r) :
    p.stage = .running := by
  cases p <;> first | rfl | cases h

namespace TaskStep

variable {i : TaskId} {entry : ChainTask NodeId Task} {x : Task}

/-- A task that is gone has returned. -/
theorem phase_goneTask (x : Task) :
    ∃ result, (State.goneTask x).phase = .returned result := by
  unfold State.goneTask
  split
  · next result h => exact ⟨result, h⟩
  · exact ⟨_, rfl⟩
  · exact ⟨_, rfl⟩

/-- **How a task comes to resolve**: it was carrying out a flush, and the save it
awaited, if it awaited one, has resolved. -/
theorem resolved (h : TaskStep s e s' i entry x) (hstage : entry.payload.stage ≠ .settled)
    {persisted : Persisted} (hx : x.phase = .settled (.ok persisted)) :
    x.captured = entry.payload.captured ∧
      ∃ r, entry.payload.phase.flushed = some r ∧
        ∀ {r' save sv redis failure},
          entry.payload.phase = .saving r' save sv redis failure →
          (s.saves save).map SaveCall.phase = some (.resolved persisted) := by
  cases h with
  | stay => exact absurd (by simp [Task.stage, hx, Phase.stage]) hstage
  | load await _ _ => cases hx
  | fail x f _ _ hfail _ => rw [hfail] at hx; cases hx
  | skip x r' p _ _ _ hskip => rw [hskip] at hx; cases hx
  | save x c _ _ _ hsave => rw [hsave] at hx; cases hx
  | refreshReplied r' p ok _ => cases hx
  | saveReplied r' save sv ok f f' _ _ => cases hx
  | saveRejected r' save sv redis first f _ => cases hx
  | refreshed r p hphase => exact ⟨rfl, r, by rw [hphase]; rfl, by simp [hphase]⟩
  | saved r save sv p phase hphase hsave hphase' =>
      refine ⟨rfl, r, by rw [hphase]; rfl, fun hphase₂ => ?_⟩
      rw [hphase] at hphase₂
      cases hphase₂
      rcases hphase' with rfl | ⟨job, rfl⟩ <;> cases hx
      exact hsave
  | embedded r p job hphase => exact ⟨rfl, r, by rw [hphase]; rfl, by simp [hphase]⟩
  | returned result _ => cases hx
  | gone _ =>
      obtain ⟨result, hreturned⟩ := phase_goneTask entry.payload
      rw [hreturned] at hx
      cases hx

/-- **How a task comes to carry out a flush**: it did so before, with the same
capture, or it has just captured the document that `docs` holds; if it does not
await a save then, it has found nothing to save. -/
theorem flushes (h : TaskStep s e s' i entry x) {r : DocRef} (hx : x.phase.flushed = some r) :
    (entry.payload.phase.flushed = some r ∧ x.captured = entry.payload.captured ∧
      ∀ {save sv redis failure}, x.phase = .saving r save sv redis failure →
        ∃ redis₀ failure₀, entry.payload.phase = .saving r save sv redis₀ failure₀) ∨
    ((e = .startTask i ∨ ∃ clientId, e = .resumeAppend i clientId) ∧
      (entry.payload.phase = .queued ∨ ∃ await, entry.payload.phase = .loadingDoc await) ∧
      s'.mem.docs entry.key = some r ∧ x.captured = some (s'.mem.heap r).doc ∧
      ((∃ persisted, x.phase = .refreshing r persisted none ∧
          (s'.mem.heap r).unchanged = true) ∨
        ∃ c, s'.saves s.nextSave = some c ∧ c.ref = r ∧ c.nodeId = entry.key ∧ c.task = i ∧
          c.state = (s'.mem.heap r).doc ∧
          x.phase = .saving r s.nextSave (encodeStateVector c.state) none none)) := by
  cases h with
  | stay => exact Or.inl ⟨hx, rfl, fun hsaving => ⟨_, _, hsaving⟩⟩
  | load await _ _ => cases hx
  | fail x f _ _ hfail _ => rw [hfail] at hx; cases hx
  | skip x r' p _ he hphase hphase' hdocs hunchanged hcaptured =>
      rw [hphase'] at hx
      cases hx
      exact Or.inr ⟨he, hphase, hdocs, hcaptured, Or.inl ⟨p, hphase', hunchanged⟩⟩
  | save x c _ he hphase hphase' hsave hnode htask hdocs hstate hcaptured =>
      rw [hphase'] at hx
      cases hx
      exact Or.inr ⟨he, hphase, hdocs, hstate ▸ hcaptured,
        Or.inr ⟨c, hsave, rfl, hnode, htask, hstate, hphase'⟩⟩
  | refreshReplied r' p ok hphase =>
      cases hx
      exact Or.inl ⟨by rw [hphase]; rfl, rfl, fun hsaving => by cases hsaving⟩
  | saveReplied r' save sv ok f f' hphase _ =>
      cases hx
      refine Or.inl ⟨by rw [hphase]; rfl, rfl, fun hsaving => ?_⟩
      cases hsaving
      exact ⟨_, _, hphase⟩
  | saveRejected r' save sv redis first f hphase =>
      cases hx
      refine Or.inl ⟨by rw [hphase]; rfl, rfl, fun hsaving => ?_⟩
      cases hsaving
      exact ⟨_, _, hphase⟩
  | refreshed r' p _ => cases hx
  | saved r' save sv p phase hphase _ hphase' =>
      rcases hphase' with rfl | ⟨job, rfl⟩ <;> cases hx
      exact Or.inl ⟨by rw [hphase]; rfl, rfl, fun hsaving => by cases hsaving⟩
  | embedded r' p job _ => cases hx
  | returned result _ => cases hx
  | gone _ =>
      obtain ⟨result, hreturned⟩ := phase_goneTask entry.payload
      rw [hreturned] at hx
      cases hx

/-- **What becomes of a task that awaits a save**: it goes on awaiting it, or it
settles, or the save has resolved and the embedding job follows. -/
theorem of_saving (h : TaskStep s e s' i entry x) {r : DocRef} {save : SaveId}
    {sv : StateVector} {redis : Option Bool} {failure : Option Failure}
    (hphase : entry.payload.phase = .saving r save sv redis failure) :
    x.stage = .settled ∨
      (∃ redis' failure', x.phase = .saving r save sv redis' failure') ∨
      ∃ persisted job, x.phase = .embedding r persisted job ∧
        (s.saves save).map SaveCall.phase = some (.resolved persisted) := by
  cases h with
  | stay => exact Or.inr (Or.inl ⟨redis, failure, hphase⟩)
  | load await _ hbefore => rw [hphase] at hbefore; cases hbefore
  | fail x f _ _ hphase' _ => exact Or.inl (by simp [Task.stage, hphase', Phase.stage])
  | skip x r' p _ _ hbefore =>
      rw [hphase] at hbefore
      rcases hbefore with hbefore | ⟨await, hbefore⟩ <;> cases hbefore
  | save x c' _ _ hbefore =>
      rw [hphase] at hbefore
      rcases hbefore with hbefore | ⟨await, hbefore⟩ <;> cases hbefore
  | refreshReplied r' p ok hbefore => rw [hphase] at hbefore; cases hbefore
  | saveReplied r' save sv' ok f f' hbefore _ =>
      rw [hphase] at hbefore
      cases hbefore
      exact Or.inr (Or.inl ⟨_, _, rfl⟩)
  | saveRejected r' save sv' redis' first f hbefore =>
      rw [hphase] at hbefore
      cases hbefore
      exact Or.inr (Or.inl ⟨_, _, rfl⟩)
  | refreshed r' p hbefore => rw [hphase] at hbefore; cases hbefore
  | saved r' save sv' p phase hbefore hsave hphase' =>
      rw [hphase] at hbefore
      cases hbefore
      rcases hphase' with rfl | ⟨job, rfl⟩
      · exact Or.inl rfl
      · exact Or.inr (Or.inr ⟨p, job, rfl, hsave⟩)
  | embedded r' p job hbefore => rw [hphase] at hbefore; cases hbefore
  | returned result hbefore => rw [hphase] at hbefore; cases hbefore
  | gone _ => exact Or.inl (State.stage_goneTask _)

/-- What a task does is fixed when it is submitted. -/
theorem kind (h : TaskStep s e s' i entry x) : x.kind = entry.payload.kind := by
  cases h with
  | fail x f hkind => exact hkind
  | skip x r p hkind => exact hkind
  | save x c hkind => exact hkind
  | gone _ => exact State.kind_goneTask _
  | _ => rfl

/-- The update of an append is what it was when the append resumed. -/
theorem update (h : TaskStep s e s' i entry x)
    (he : ∀ clientId, e ≠ .resumeAppend i clientId) : x.update = entry.payload.update := by
  have hold : x.update = entry.payload.update ∨ (∃ clientId, e = .resumeAppend i clientId) →
      x.update = entry.payload.update := by
    rintro (hsame | ⟨clientId, hevent⟩)
    · exact hsame
    · exact absurd hevent (he clientId)
  cases h with
  | fail x f _ _ _ _ hupdate _ => exact hold hupdate
  | skip x r p _ _ _ _ _ _ _ hupdate => exact hold hupdate
  | save x c _ _ _ _ _ _ _ _ _ _ hupdate => exact hold hupdate
  | gone _ =>
      unfold State.goneTask
      split <;> rfl
  | _ => rfl

/-- A task that has settled stays so. -/
theorem of_settled (h : TaskStep s e s' i entry x)
    (hsettled : entry.payload.stage = .settled) : x.stage = .settled := by
  have hphase : ∀ {ph : Phase}, entry.payload.phase = ph → ph.stage = .settled := by
    intro ph hph
    rw [← hph]
    exact hsettled
  cases h with
  | stay => exact hsettled
  | load await _ hbefore => exact absurd (hphase hbefore) (by simp [Phase.stage])
  | fail x f _ hstage _ _ => exact absurd hsettled hstage
  | skip x r p _ _ hbefore =>
      rcases hbefore with hbefore | ⟨await, hbefore⟩ <;>
        exact absurd (hphase hbefore) (by simp [Phase.stage])
  | save x c _ _ hbefore =>
      rcases hbefore with hbefore | ⟨await, hbefore⟩ <;>
        exact absurd (hphase hbefore) (by simp [Phase.stage])
  | refreshReplied r p ok hbefore => exact absurd (hphase hbefore) (by simp [Phase.stage])
  | saveReplied r save sv ok f f' hbefore _ =>
      exact absurd (hphase hbefore) (by simp [Phase.stage])
  | saveRejected r save sv redis first f hbefore =>
      exact absurd (hphase hbefore) (by simp [Phase.stage])
  | refreshed r p hbefore => exact absurd (hphase hbefore) (by simp [Phase.stage])
  | saved r save sv p phase hbefore _ _ => exact absurd (hphase hbefore) (by simp [Phase.stage])
  | embedded r p job hbefore => exact absurd (hphase hbefore) (by simp [Phase.stage])
  | returned result _ => rfl
  | gone _ => exact State.stage_goneTask _

end TaskStep

/-- What becomes of the task of a flush. -/
private theorem State.FlushStep.taskStep {s₀ : State} {t : TaskId} {x : Task}
    {entry₀ : ChainTask NodeId Task} (h : s.FlushStep t x entry₀.key s')
    (he : e = .startTask t ∨ ∃ clientId, e = .resumeAppend t clientId)
    (hnext : s.nextSave = s₀.nextSave)
    (hphase : entry₀.payload.phase = .queued ∨ ∃ await, entry₀.payload.phase = .loadingDoc await)
    (hkind : x.kind = entry₀.payload.kind) (hcaptured : x.captured = entry₀.payload.captured)
    (hupdate : x.update = entry₀.payload.update ∨ ∃ clientId, e = .resumeAppend t clientId) :
    ∃ p : Task, s'.queue = s.queue.advance t p ∧ TaskStep s₀ e s' t entry₀ p := by
  have hstage : entry₀.payload.stage ≠ .settled := by
    rcases hphase with hphase | ⟨await, hphase⟩ <;> simp [Task.stage, hphase, Phase.stage]
  have he' : e = .startTask t ∨ (∃ clientId, e = .resumeAppend t clientId) ∨
      e = .continueFlush t := he.imp_right Or.inl
  cases h with
  | notLoaded _ =>
      exact ⟨_, rfl, .fail _ (.docNotLoaded entry₀.key) hkind hstage rfl (Or.inl hcaptured)
        hupdate he'⟩
  | skip r mem hdocs hmem hunchanged =>
      refine ⟨_, rfl, .skip _ r _ hkind he hphase rfl ?_ ?_ ?_ hupdate⟩
      · rw [hmem.docs, hdocs]
      · rw [hmem.unchanged, hunchanged]
      · rw [hmem.doc]
  | throws r mem cmds hdocs hmem _ =>
      refine ⟨_, rfl, .fail _ .lexical hkind hstage rfl (Or.inr ⟨rfl, he, r, ?_, ?_⟩) hupdate
        he'⟩
      · rw [hmem.docs, hdocs]
      · rw [hmem.doc]
  | save r mem c hdocs hmem hchanged hnode htask href hstate _ =>
      refine ⟨_, rfl, .save _ c hkind he hphase ?_ ?_ hnode htask ?_ ?_ ?_ hupdate⟩
      · rw [href, hstate, hnext]
      · rw [hnext]
        exact Function.update_self ..
      · rw [hmem.docs, hdocs, href]
      · rw [href, hmem.doc, hstate]
      · rw [hstate]

/-- **The tasks.**  A task of the new queue has taken a step, or has just been
submitted; no task is forgotten. -/
structure QueueStep (s : State) (e : Event) (s' : State) : Prop where
  task : ∀ {i entry'}, s'.queue.task i = some entry' →
    (∃ entry, s.queue.task i = some entry ∧ entry'.key = entry.key ∧
      TaskStep s e s' i entry entry'.payload) ∨
    (s.queue.task i = none ∧ ∃ kind, entry'.payload = { kind := kind, phase := .queued })
  keeps : ∀ {i entry}, s.queue.task i = some entry → ∃ entry', s'.queue.task i = some entry'

private theorem QueueStep.of_task_eq (h : ∀ {i}, s.queue.task i = s'.queue.task i) :
    QueueStep s e s' where
  task hi := Or.inl ⟨_, by rw [h]; exact hi, rfl, .stay⟩
  keeps hi := ⟨_, by rw [← h]; exact hi⟩

private theorem QueueStep.of_eq (hqueue : s'.queue = s.queue) : QueueStep s e s' :=
  .of_task_eq fun {_} => by rw [hqueue]

/-- Task `t` is advanced to `p`, and flushes may be submitted behind. -/
private theorem QueueStep.of_advance {s₁ : State} {t : TaskId} {entry : ChainTask NodeId Task}
    {c : Queue} (p : Task) (hstep : TaskStep s e s' t entry p)
    (htask : s.queue.task t = some entry) (hqueue : s₁.queue = c.advance t p)
    (hc : c.task = s.queue.task) (hsub : State.Submits s₁ s') : QueueStep s e s' where
  task := by
    intro i entry' hi
    rcases hsub.fresh hi with hi | ⟨hnone, caller, hpay⟩
    · rw [hqueue] at hi
      obtain ⟨entry₁, hentry₁, hkey, hpay⟩ := PromiseChain.exists_of_advance hi
      rw [hc] at hentry₁
      refine Or.inl ⟨entry₁, hentry₁, hkey, ?_⟩
      rcases hpay with hpay | ⟨rfl, hpay⟩
      · rw [hpay]
        exact .stay
      · rw [htask] at hentry₁
        cases hentry₁
        rw [hpay]
        exact hstep
    · refine Or.inr ⟨?_, _, hpay⟩
      cases hi' : s.queue.task i with
      | none => rfl
      | some entry₁ =>
          rw [← hc] at hi'
          obtain ⟨entry₂, hentry₂, -⟩ := PromiseChain.advance_of_task (i := t) (p := p) hi'
          rw [hqueue, hentry₂] at hnone
          cases hnone
  keeps := by
    intro i entry₁ hi
    rw [← hc] at hi
    obtain ⟨entry₂, hentry₂, -⟩ := PromiseChain.advance_of_task (i := t) (p := p) hi
    exact ⟨entry₂, hsub.keeps (by rw [hqueue, hentry₂])⟩

private theorem queueStep_rejectSave {s₁ : State} {save : SaveId} {c : SaveCall}
    {committed : Bool} {failure : Failure} (hqueue : s₁.queue = s.queue) :
    QueueStep s e (s₁.rejectSave save c committed failure) := by
  rcases State.rejectSave_queue s₁ save c committed failure with
    hsame | ⟨entry, r, sv, redis, first, htask, hphase, hadvance⟩
  · exact .of_eq (hsame.trans hqueue)
  · exact .of_advance _ (.saveRejected r save sv redis first failure hphase)
      (by rw [← hqueue]; exact htask) hadvance (by rw [hqueue]) (.refl _)

/-- The tasks move by the steps of `TaskStep` only. -/
theorem step_queue (h : step lex s e = some s') : QueueStep s e s' := by
  have hrunning : ∀ {entry : ChainTask NodeId Task} {ph : Phase}, entry.payload.phase = ph →
      ph.stage = .running → entry.payload.stage ≠ .settled := by
    intro entry ph hph hrun
    rw [Task.stage, hph, hrun]
    decide
  cases step_cases h with
  | schedule _ hsub =>
      refine ⟨fun hi => ?_, fun hi => ⟨_, hsub.keeps hi⟩⟩
      rcases hsub.fresh hi with hi | ⟨hnone, caller, hpay⟩
      · exact Or.inl ⟨_, hi, rfl, .stay⟩
      · exact Or.inr ⟨hnone, _, hpay⟩
  | submitAppend n ws markdown userId _ hs' =>
      subst hs'
      refine ⟨fun hi => ?_, fun hi => ⟨_, State.runExclusive_keeps s hi⟩⟩
      rcases State.runExclusive_fresh s hi with hi | ⟨hnone, hpay⟩
      · exact Or.inl ⟨_, hi, rfl, .stay⟩
      · exact Or.inr ⟨hnone, _, hpay⟩
  | get n ws _ _ hwork => exact .of_eq hwork.queue
  | resumeGet get c _ _ _ _ hwork => exact .of_eq hwork.queue
  | loadMoved l x phase _ _ _ hwork => exact .of_eq hwork.queue
  | put l x doc ws _ _ _ _ hwork => exact .of_eq hwork.queue
  | edit n r u _ _ _ hwork => exact .of_eq hwork.queue
  | remove _ hwork => exact .of_eq hwork.queue
  | startFlush t entry caller he htask hphase _ _ hflush =>
      obtain ⟨p, hqueue, hstep⟩ :
          ∃ p : Task, s'.queue = s.queue.advance t p ∧ TaskStep s e s' t entry p :=
        hflush.taskStep (Or.inl he) rfl (Or.inl hphase) rfl rfl (Or.inl rfl)
      exact .of_advance p hstep htask hqueue rfl (.refl _)
  | startAppend t entry ws await he htask hphase _ _ _ hwork =>
      exact .of_advance _ (.load await he hphase) htask hwork.queue rfl (.refl _)
  | appendFailed t clientId entry await failure he htask hphase _ _ _ _ _ _ hwork =>
      exact .of_advance { entry.payload with phase := .settled (.error failure) }
        (.fail _ failure rfl (hrunning hphase rfl) rfl (Or.inl rfl) (Or.inl rfl)
          (Or.inr (Or.inl ⟨clientId, he⟩))) htask hwork.queue rfl (.refl _)
  | appended t clientId entry await ws markdown userId r result x s₁ he htask hphase _ _ _ _
      hwork _ hx _ hflush =>
      have hcaptured : x.captured = entry.payload.captured := by rw [hx]
      have hxkind : x.kind = entry.payload.kind := by rw [hx]
      have htasks : s₁.queue.task = s.queue.task := by rw [hwork.queue]
      rcases hflush with ⟨-, rfl⟩ | ⟨-, hflush⟩
      · exact .of_advance { x with phase := .settled (.error .undefinedEntry) }
          (.fail _ .undefinedEntry hxkind (hrunning hphase rfl) rfl (Or.inl hcaptured)
            (Or.inr ⟨clientId, he⟩) (Or.inr (Or.inl ⟨clientId, he⟩))) htask rfl htasks (.refl _)
      · obtain ⟨p, hqueue, hstep⟩ := hflush.taskStep (Or.inr ⟨clientId, he⟩) hwork.nextSave
          (Or.inr ⟨await, hphase⟩) hxkind hcaptured (Or.inr ⟨clientId, he⟩)
        exact .of_advance p hstep htask hqueue htasks (.refl _)
  | continueFlush t entry mem phase he htask hs' hcase =>
      have hqueue : s'.queue = s.queue.advance t { entry.payload with phase := phase } := by
        rw [hs']
        rfl
      have hstep : TaskStep s e s' t entry { entry.payload with phase := phase } := by
        rcases hcase with ⟨-, r, persisted, hphase, rfl⟩ | ⟨-, ⟨r, persisted, hphase⟩, rfl⟩ |
          ⟨-, r, save, sv, redis, failure, hphase, rfl⟩ |
          ⟨r, save, sv, persisted, hphase, hsave, -, hphase'⟩
        · exact .refreshed r persisted hphase
        · exact .fail _ .redis rfl (hrunning hphase rfl) rfl (Or.inl rfl) (Or.inl rfl)
            (Or.inr (Or.inr he))
        · exact .fail _ failure rfl (hrunning hphase rfl) rfl (Or.inl rfl) (Or.inl rfl)
            (Or.inr (Or.inr he))
        · exact .saved r save sv persisted phase hphase hsave hphase' he
      exact .of_advance _ hstep htask hqueue rfl (.refl _)
  | embedded t entry r persisted job htask hphase _ hwork =>
      exact .of_advance _ (.embedded r persisted job hphase) htask hwork.queue rfl (.refl _)
  | returned t entry result s₁ _ htask hphase _ hwork _ hsub =>
      exact .of_advance _ (.returned result hphase) htask hwork.queue (by simp) hsub
  | redisSet reply n state t rest _ _ hs' =>
      rcases State.saveToRedisReply_queue _ t (decide (reply = .ok)) with
        hqueue | ⟨entry, phase, htask, hqueue, hcase⟩
      · exact .of_eq (by rw [hs', hqueue])
      · have hstep : TaskStep s e s' t entry { entry.payload with phase := phase } := by
          rcases hcase with ⟨r, persisted, hphase, rfl⟩ | ⟨r, save, sv, failure, hphase, rfl⟩
          · exact .refreshReplied r persisted _ hphase
          · exact .saveReplied r save sv _ failure _ hphase fun hok => by rw [if_pos hok]
        exact .of_advance _ hstep htask (by rw [hs']; exact hqueue) rfl (.refl _)
  | uncached n store _ _ hwork => exact .of_eq hwork.queue
  | commit save c reply now row _ _ _ _ _ hs' =>
      rcases hs' with rfl | rfl
      · exact .of_eq rfl
      · exact queueStep_rejectSave rfl
  | saveMoved save c _ hcase =>
      rcases hcase with ⟨-, failure, rfl⟩ | ⟨persisted, -, rfl | rfl⟩
      · exact queueStep_rejectSave rfl
      · exact .of_eq rfl
      · exact queueStep_rejectSave rfl
  | otherWriter nodes hs' _ =>
      subst hs'
      exact .of_eq rfl
  | restart he hs' =>
      subst hs'
      refine ⟨fun {i entry'} hi => ?_, fun {i entry} hi => ?_⟩
      · obtain ⟨entry, hentry, rfl⟩ := Option.map_eq_some_iff.mp hi
        exact Or.inl ⟨entry, hentry, rfl, .gone he⟩
      · exact ⟨_, Option.map_eq_some_iff.mpr ⟨entry, hi, rfl⟩⟩

/-- A task of the state before is still there after, having taken a step. -/
theorem step_task (h : step lex s e = some s') {i : TaskId} {entry : ChainTask NodeId Task}
    (hi : s.queue.task i = some entry) :
    ∃ entry', s'.queue.task i = some entry' ∧ entry'.key = entry.key ∧
      TaskStep s e s' i entry entry'.payload := by
  obtain ⟨entry', hentry'⟩ := (step_queue h).keeps hi
  rcases (step_queue h).task hentry' with ⟨entry₁, hentry₁, hkey, hstep⟩ | ⟨hnone, -⟩
  · rw [hi] at hentry₁
    cases hentry₁
    exact ⟨entry', hentry', hkey, hstep⟩
  · rw [hi] at hnone
    cases hnone

/-! ### The stores -/

/-- The event touches neither the `nodes` table nor Redis. -/
def Event.Local : Event → Prop
  | .getOrCreateDoc _ _ | .cleanupNode _ | .startTask _ | .resumeAppend _ _ | .resumeTask _
  | .redisReply _ | .redisExpire _ | .updateNodeRow _ _ _ | .writeNode _ _ | .deleteNode _
  | .restart => False
  | _ => True

/-- **A local event** leaves both stores alone. -/
theorem stores_of_local (h : step lex s e = some s') (hlocal : e.Local) :
    s'.nodes = s.nodes ∧ s'.redis = s.redis := by
  cases e with
  | resumeGet get =>
      simp only [step] at h
      split at h
      · cases h
      · split at h <;> cases h
        constructor <;> simp [State.removeGet]
  | removeClient n k =>
      cases h
      obtain ⟨mem, -, hsub⟩ := State.submits_removeClient s n k
      exact ⟨hsub.nodes, hsub.redis⟩
  | flushInterval =>
      simp only [step] at h
      split at h <;> cases h
      exact ⟨(State.submits_flushAll s).nodes, (State.submits_flushAll s).redis⟩
  | onModuleDestroy =>
      simp only [step] at h
      split at h <;> cases h
      exact ⟨(State.submits_flushAll s).nodes, (State.submits_flushAll s).redis⟩
  | finishDestroy =>
      obtain ⟨call, -, rfl⟩ := State.finishDestroy_cases s h
      exact ⟨rfl, rfl⟩
  | fireTimer timer =>
      obtain ⟨nodeId, ⟨-, rfl⟩ | ⟨-, rfl⟩⟩ := State.fireTimer_cases s h
      · exact ⟨rfl, rfl⟩
      · exact ⟨rfl, rfl⟩
  | continueLoad l =>
      obtain ⟨x, -, ⟨-, rfl⟩ | ⟨state, ws, rfl, -⟩⟩ := State.continueLoad_cases s h
      · exact ⟨rfl, rfl⟩
      · exact ⟨rfl, rfl⟩
  | dbReply l ok clientId =>
      obtain ⟨nodeId, workspaceId, -, rfl⟩ := State.dbReply_cases s h
      exact ⟨rfl, rfl⟩
  | continueFlush t =>
      obtain ⟨entry, mem, phase, -, rfl, -⟩ := State.continueFlush_step s h
      exact ⟨rfl, rfl⟩
  | enqueued t ok =>
      obtain ⟨entry, r, persisted, job, -, -, rfl⟩ := State.enqueued_cases s h
      exact ⟨rfl, rfl⟩
  | attachmentsSynced save ok =>
      obtain ⟨c, persisted, -, -, ⟨-, rfl⟩ | ⟨-, rfl⟩⟩ := State.attachmentsSynced_cases s h
      · exact ⟨rfl, rfl⟩
      · constructor <;> simp
  | addClient n k =>
      cases h
      exact ⟨rfl, rfl⟩
  | applyToDoc n u =>
      cases h
      exact ⟨rfl, rfl⟩
  | scheduleSave n userId =>
      cases h
      exact ⟨rfl, rfl⟩
  | appendMarkdown n ws markdown userId =>
      cases h
      exact ⟨rfl, rfl⟩
  | _ => exact hlocal.elim

/-- The event changes no document and no timer: it answers a call, makes one, or happens in a
store. -/
def Event.KeepsMemory : Event → Prop
  | .resumeGet _ | .appendMarkdown _ _ _ _ | .flushInterval | .onModuleDestroy | .dbReply _ _ _
  | .enqueued _ _ | .redisReply _ | .redisExpire _ | .updateNodeRow _ _ _
  | .attachmentsSynced _ _ | .writeNode _ _ | .deleteNode _ => True
  | _ => False

/-- **The memory** is as it was after such an event. -/
theorem mem_of_keepsMemory (h : step lex s e = some s') (he : e.KeepsMemory) :
    s'.mem = s.mem := by
  cases e with
  | resumeGet get =>
      simp only [step] at h
      split at h
      · cases h
      · split at h <;> cases h
        simp [State.removeGet]
  | flushInterval =>
      simp only [step] at h
      split at h <;> cases h
      exact (State.submits_flushAll s).mem
  | onModuleDestroy =>
      simp only [step] at h
      split at h <;> cases h
      exact (State.submits_flushAll s).mem
  | dbReply l ok clientId =>
      obtain ⟨nodeId, workspaceId, -, rfl⟩ := State.dbReply_cases s h
      rfl
  | enqueued t ok =>
      obtain ⟨entry, r, persisted, job, -, -, rfl⟩ := State.enqueued_cases s h
      rfl
  | redisReply reply =>
      obtain ⟨cmd, rest, -, ⟨l, -, ⟨nodeId, workspaceId, -, rfl⟩ | rfl⟩ | ⟨n, state, t, -, rfl⟩ |
        ⟨n, -, rfl⟩⟩ := State.redisReply_cases s h
      · rfl
      · rfl
      · simp
      · rfl
  | updateNodeRow save reply now =>
      obtain ⟨c, -, -, ⟨-, rfl⟩ | ⟨-, -, rfl⟩ | ⟨row, -, -, ⟨-, rfl⟩ | ⟨-, rfl⟩⟩⟩ :=
        State.updateNodeRow_cases s h
      · simp
      · simp
      · rfl
      · simp
  | attachmentsSynced save ok =>
      obtain ⟨c, persisted, -, -, ⟨-, rfl⟩ | ⟨-, rfl⟩⟩ := State.attachmentsSynced_cases s h
      · rfl
      · simp
  | writeNode n row =>
      simp only [step] at h
      split at h <;> cases h
      rfl
  | appendMarkdown n ws markdown userId =>
      cases h
      rfl
  | redisExpire n =>
      cases h
      rfl
  | deleteNode n =>
      cases h
      rfl
  | _ => exact he.elim

end AideepWebsocket.DocManager
