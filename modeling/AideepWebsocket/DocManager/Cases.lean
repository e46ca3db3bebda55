import AideepWebsocket.DocManager.Operations

/-!
# What the operations of YjsDocManager do

Each operation that an event enters is a program with several ends.  For each of them
there is one lemma here that lists its ends, with what has been found on the way to
them and the state that is left.  The proofs about a step begin with it and do not unfold
the operation: a change to one operation of the manager is a change to one lemma of this
module, and to the proofs that read the clause that has changed.
-/

namespace AideepWebsocket.DocManager

variable {lex : Lexical} {s s' : State}

namespace Memory

variable (m : Memory)

/-- Timers are not in the objects… -/
theorem heap_clearTimeout (timer : Option TimerId) : (m.clearTimeout timer).heap = m.heap := by
  cases timer <;> rfl

/-- …and an object outlives its entry. -/
theorem heap_drop (nodeId : NodeId) : (m.drop nodeId).heap = m.heap := by
  unfold drop
  split
  · rfl
  · show (clearTimeout _ _).heap = _
    rw [heap_clearTimeout, heap_clearTimeout]

/-- An eviction keeps an entry that has clients, and drops one that has none. -/
theorem evictDoc_cases (nodeId : NodeId) :
    m.evictDoc nodeId = m ∧ (∀ r, m.docs nodeId = some r → (m.heap r).clients ≠ ∅) ∨
      m.evictDoc nodeId = m.drop nodeId ∧ m.docs nodeId ≠ none := by
  unfold evictDoc
  split
  · next hdocs => exact Or.inl ⟨rfl, fun r hr => by rw [hdocs] at hr; cases hr⟩
  · next r hdocs =>
      split
      · exact Or.inr ⟨rfl, by rw [hdocs]; exact Option.some_ne_none r⟩
      · next hclients =>
          refine Or.inl ⟨rfl, fun q hq => ?_⟩
          obtain rfl := Option.some.inj (hdocs.symm.trans hq)
          exact hclients

end Memory

namespace State

variable (s)

/-! ### Loads -/

/-- A load goes on with what its store has answered. -/
theorem continueLoad_cases {l : LoadId} (h : s.continueLoad l = some s') :
    ∃ x, s.loader.loads l = some x ∧
      ((x.phase = .redisAnswered none ∧
          s' = { s with loader := s.loader.setPhase l .loadFromDb }) ∨
        ∃ state workspaceId, s' = s.finishLoad l x state workspaceId ∧
          (x.phase = .redisAnswered state ∧ state ≠ none ∧ workspaceId = x.workspaceId ∨
            (∃ u, x.phase = .dbAnswered (some ⟨some u, workspaceId⟩) ∧ state = some u) ∨
            (x.phase = .dbAnswered none ∨ ∃ ws, x.phase = .dbAnswered (some ⟨none, ws⟩)) ∧
              state = none ∧ workspaceId = x.workspaceId)) := by
  unfold continueLoad at h
  cases hload : s.loader.loads l with
  | none => simp [hload] at h
  | some x =>
      obtain ⟨nodeId, workspaceId, phase⟩ := x
      refine ⟨_, rfl, ?_⟩
      simp only [hload] at h
      cases phase with
      | redisAnswered state =>
          cases state with
          | none =>
              cases h
              exact Or.inl ⟨rfl, rfl⟩
          | some state =>
              cases h
              exact Or.inr ⟨some state, workspaceId, rfl,
                Or.inl ⟨rfl, Option.some_ne_none state, rfl⟩⟩
      | dbAnswered result =>
          rcases result with _ | ⟨_ | state, ws⟩
          · cases h
            exact Or.inr ⟨none, workspaceId, rfl, Or.inr (Or.inr ⟨Or.inl rfl, rfl, rfl⟩)⟩
          · cases h
            exact Or.inr ⟨none, workspaceId, rfl, Or.inr (Or.inr ⟨Or.inr ⟨ws, rfl⟩, rfl, rfl⟩)⟩
          · cases h
            exact Or.inr ⟨some state, ws, rfl, Or.inr (Or.inl ⟨state, rfl, rfl⟩)⟩
      | _ => cases h

/-- The database answers a load, or rejects. -/
theorem dbReply_cases {l : LoadId} {ok : Bool} {clientId : ClientId}
    (h : s.dbReply lex l ok clientId = some s') :
    ∃ nodeId workspaceId, s.loader.loads l = some ⟨nodeId, workspaceId, .loadFromDb⟩ ∧
      s' = { s with
        loader := s.loader.setPhase l
          (if ok then .dbAnswered (s.loadFromDb lex nodeId clientId) else .rejected .database) } := by
  unfold dbReply at h
  split at h
  · next nodeId workspaceId hload =>
      cases h
      exact ⟨nodeId, workspaceId, hload, rfl⟩
  · cases h

/-! ### Tasks -/

/-- The task at the head of its queue starts: a flush, or the load of an
append. -/
theorem startTask_cases {t : TaskId} (h : s.startTask lex t = some s') :
    ∃ entry, s.queue.task t = some entry ∧ entry.payload.phase = .queued ∧
      s.queue.ready entry = true ∧
      ((∃ caller, entry.payload.kind = .flushDoc caller ∧
          s' = s.flushDocLocked lex t entry.payload entry.key none) ∨
        ∃ ws markdown userId, entry.payload.kind = .appendMarkdown ws markdown userId ∧
          s' = (s.getOrCreateDoc entry.key ws).1.setTask t
            { entry.payload with phase := .loadingDoc (s.getOrCreateDoc entry.key ws).2 }) := by
  unfold startTask at h
  cases htask : s.queue.task t with
  | none => simp [htask] at h
  | some entry =>
      simp only [htask] at h
      split at h
      · next hphase =>
          split at h
          · next hready =>
              refine ⟨entry, rfl, hphase, hready, ?_⟩
              split at h
              · next caller hkind =>
                  cases h
                  exact Or.inl ⟨caller, hkind, rfl⟩
              · next ws markdown userId hkind =>
                  cases h
                  exact Or.inr ⟨ws, markdown, userId, hkind, rfl⟩
          · cases h
      · cases h

/-- How `appendMarkdown` resumes: the load or the conversion failed, or the
document is edited; then there is no entry to mark, or the flush follows. -/
theorem resumeAppend_cases {t : TaskId} {clientId : ClientId}
    (h : s.resumeAppend lex t clientId = some s') :
    ∃ entry await ws markdown userId, s.queue.task t = some entry ∧
      entry.payload.phase = .loadingDoc await ∧
      entry.payload.kind = .appendMarkdown ws markdown userId ∧
      ((∃ failure, (s.awaited await = some (.error failure) ∨
            ∃ r, s.awaited await = some (.ok r) ∧
              lex.append clientId (s.mem.heap r).doc markdown = none) ∧
          s' = (s.finishAwait entry.key await).setTask t
            { entry.payload with phase := .settled (.error failure) }) ∨
        ∃ r result, s.awaited await = some (.ok r) ∧
          lex.append clientId (s.mem.heap r).doc markdown = some result ∧
          let mem := s.mem.modify r fun d =>
            { d with doc := applyUpdate (s.mem.heap r).doc result.added }
          let x : Task := { entry.payload with
            inserted := some result.added
            update := some (encodeStateAsUpdate (applyUpdate (s.mem.heap r).doc result.added)
              (encodeStateVector (s.mem.heap r).doc)) }
          (s.mem.docs entry.key = none ∧
              s' = State.setTask { s.finishAwait entry.key await with mem := mem } t
                { x with phase := .settled (.error .undefinedEntry) }) ∨
            ∃ r', s.mem.docs entry.key = some r' ∧
              s' = State.flushDocLocked lex
                { s.finishAwait entry.key await with
                  mem := mem.modify r' fun d =>
                    { d with dirtyForEmbed := true, lastEditorUserId := some userId } }
                t x entry.key (some result.markdown)) := by
  unfold resumeAppend at h
  cases htask : s.queue.task t with
  | none => simp [htask] at h
  | some entry =>
      obtain ⟨key, previous, ⟨kind, phase, inserted, update, captured⟩⟩ := entry
      simp only [htask] at h
      cases phase with
      | loadingDoc await =>
          cases kind with
          | flushDoc caller => cases h
          | appendMarkdown ws markdown userId =>
              refine ⟨_, await, ws, markdown, userId, rfl, rfl, rfl, ?_⟩
              dsimp only at h ⊢
              cases hawait : s.awaited await with
              | none => simp [hawait] at h
              | some value =>
                  cases value with
                  | error failure =>
                      simp only [hawait, Option.some.injEq] at h
                      exact Or.inl ⟨failure, Or.inl rfl, h.symm⟩
                  | ok r =>
                      simp only [hawait] at h
                      cases happend : lex.append clientId (s.mem.heap r).doc markdown with
                      | none =>
                          simp only [happend, Option.some.injEq] at h
                          exact Or.inl ⟨.lexical, Or.inr ⟨r, rfl, happend⟩, h.symm⟩
                      | some result =>
                          simp only [happend] at h
                          have hmem : (s.finishAwait key await).mem = s.mem := by
                            unfold finishAwait
                            split <;> rfl
                          rw [hmem] at h
                          refine Or.inr ⟨r, result, rfl, happend, ?_⟩
                          cases hdocs : s.mem.docs key with
                          | none =>
                              have hnone : (s.mem.modify r fun d => { d with
                                  doc := applyUpdate (s.mem.heap r).doc result.added }).docs
                                  key = none := hdocs
                              simp only [hnone, Option.some.injEq] at h
                              exact Or.inl ⟨rfl, h.symm⟩
                          | some r' =>
                              have hsome : (s.mem.modify r fun d => { d with
                                  doc := applyUpdate (s.mem.heap r).doc result.added }).docs
                                  key = some r' := hdocs
                              simp only [hsome, Option.some.injEq] at h
                              exact Or.inr ⟨r', rfl, h.symm⟩
      | _ => cases h

/-- How a flush resumes: it settles with the record of the row or with the first
failure, or it goes on to the embedding job if its document is marked. -/
theorem continueFlush_cases {t : TaskId} (h : s.continueFlush t = some s') :
    ∃ entry, s.queue.task t = some entry ∧
      ((∃ result, s' = s.settle t entry.payload result ∧
          ((∃ r persisted, entry.payload.phase = .refreshing r persisted (some true) ∧
              result = .ok persisted) ∨
            (∃ r persisted, entry.payload.phase = .refreshing r persisted (some false) ∧
              result = .error .redis) ∨
            ∃ r save sv redis failure,
              entry.payload.phase = .saving r save sv redis (some failure) ∧
              result = .error failure)) ∨
        ∃ r save sv persisted, entry.payload.phase = .saving r save sv (some true) none ∧
          (s.saves save).map SaveCall.phase = some (.resolved persisted) ∧
          let mem := s.mem.modify r fun d =>
            { d with lastSavedStateVector := some sv, lastPersisted := some persisted }
          (((s.mem.heap r).dirtyForEmbed = true → (s.mem.heap r).lastEditorUserId = none) ∧
              s' = State.settle { s with mem := mem } t entry.payload (.ok persisted)) ∨
            ∃ userId, s' = State.setTask
              { s with mem := mem.modify r fun d => { d with dirtyForEmbed := false } } t
              { entry.payload with
                phase := .embedding r persisted
                  ⟨entry.key, userId, (s.mem.heap r).workspaceId⟩ }) := by
  unfold continueFlush at h
  cases htask : s.queue.task t with
  | none => simp [htask] at h
  | some entry =>
      simp only [htask] at h
      refine ⟨entry, rfl, ?_⟩
      split at h
      · next r persisted hphase =>
          cases h
          exact Or.inl ⟨_, rfl, Or.inl ⟨r, persisted, hphase, rfl⟩⟩
      · next r persisted hphase =>
          cases h
          exact Or.inl ⟨_, rfl, Or.inr (Or.inl ⟨r, persisted, hphase, rfl⟩)⟩
      · next r save sv redis failure hphase =>
          cases h
          exact Or.inl ⟨_, rfl, Or.inr (Or.inr ⟨r, save, sv, redis, failure, hphase, rfl⟩)⟩
      · next r save sv hphase =>
          split at h
          · next persisted hsave =>
              refine Or.inr ⟨r, save, sv, persisted, hphase, hsave, ?_⟩
              split at h
              · next userId hdirty huser =>
                  cases h
                  refine Or.inr ⟨userId, ?_⟩
                  simp [Memory.modify]
              · next hnot =>
                  cases h
                  refine Or.inl ⟨fun hdirty => Option.eq_none_iff_forall_ne_some.mpr ?_, rfl⟩
                  intro userId huser
                  exact hnot userId (by simpa [Memory.modify] using hdirty)
                    (by simpa [Memory.modify] using huser)
          · cases h
      · cases h

/-- `enqueueEmbedJob` ends, and the flush with it. -/
theorem enqueued_cases {t : TaskId} {ok : Bool} (h : s.enqueued t ok = some s') :
    ∃ entry r persisted job, s.queue.task t = some entry ∧
      entry.payload.phase = .embedding r persisted job ∧
      s' = State.settle { s with embedJobs := if ok then s.embedJobs ++ [job] else s.embedJobs } t
        entry.payload (.ok persisted) := by
  unfold enqueued at h
  split at h
  · cases h
  · next entry htask =>
      split at h
      · next r persisted job hphase =>
          cases h
          exact ⟨entry, r, persisted, job, htask, hphase, rfl⟩
      · cases h

/-- The caller of a task resumes.  That of a flush handles its failure, and a worker of
`flushAll` goes on to its next node. -/
theorem resumeTask_cases {t : TaskId} (h : s.resumeTask t = some s') :
    ∃ entry result, s.queue.task t = some entry ∧ entry.payload.phase = .settled result ∧
      let s₁ : State := State.setTask { s with queue := s.queue.dropTail t } t
        { entry.payload with phase := .returned result }
      ((∃ ws markdown userId, entry.payload.kind = .appendMarkdown ws markdown userId ∧ s' = s₁) ∨
        ∃ caller s₂, entry.payload.kind = .flushDoc caller ∧
          ((∃ persisted, result = .ok persisted ∧ s₂ = s₁) ∨
            ∃ failure, result = .error failure ∧ s₂ = s₁.handleFlushError entry.key failure) ∧
          ((∃ call, caller = .flushAll call ∧ s' = s₂.nextFlush call) ∨
            (∀ call, caller ≠ .flushAll call) ∧ s' = s₂)) := by
  unfold resumeTask at h
  split at h
  · cases h
  · next entry htask =>
      split at h
      · next result hphase =>
          refine ⟨entry, result, htask, hphase, ?_⟩
          dsimp only at h ⊢
          split at h
          · next ws markdown userId hkind =>
              cases h
              exact Or.inl ⟨ws, markdown, userId, hkind, rfl⟩
          · next caller hkind =>
              cases result with
              | ok persisted =>
                  refine Or.inr ⟨caller, _, hkind, Or.inl ⟨persisted, rfl, rfl⟩, ?_⟩
                  cases caller with
                  | flushAll call => exact Or.inl ⟨call, rfl, (Option.some.inj h).symm⟩
                  | _ => exact Or.inr ⟨fun _ hcaller => (by cases hcaller), (Option.some.inj h).symm⟩
              | error failure =>
                  refine Or.inr ⟨caller, _, hkind, Or.inr ⟨failure, rfl, rfl⟩, ?_⟩
                  cases caller with
                  | flushAll call => exact Or.inl ⟨call, rfl, (Option.some.inj h).symm⟩
                  | _ => exact Or.inr ⟨fun _ hcaller => (by cases hcaller), (Option.some.inj h).symm⟩
      · cases h

/-! ### The stores -/

/-- The oldest command of Redis ends: a `GET` answers its load, or nobody any more; a
`SET` answers its task; a `DEL` answers nobody. -/
theorem redisReply_cases {reply : Reply} (h : s.redisReply reply = some s') :
    ∃ cmd rest, s.redis.commands = cmd :: rest ∧
      ((∃ l, cmd = .get l ∧
          ((∃ nodeId workspaceId, s.loader.loads l = some ⟨nodeId, workspaceId, .loadFromRedis⟩ ∧
              s' = { s with
                redis := { s.redis with commands := rest }
                loader := s.loader.setPhase l (.redisAnswered
                  (if reply = .ok then (s.redis.store nodeId).map Cached.state else none)) }) ∨
            s' = { s with redis := { s.redis with commands := rest } })) ∨
        (∃ nodeId state t, cmd = .set nodeId state t ∧
          s' = State.saveToRedisReply
            { s with redis := ⟨if reply.executed then
                Function.update s.redis.store nodeId (some ⟨state, t⟩) else s.redis.store, rest⟩ }
            t (reply = .ok)) ∨
        ∃ nodeId, cmd = .del nodeId ∧
          s' = { s with redis := ⟨if reply.executed then
            Function.update s.redis.store nodeId none else s.redis.store, rest⟩ }) := by
  unfold redisReply at h
  split at h
  · cases h
  · next cmd rest hcmds =>
      refine ⟨cmd, rest, hcmds, ?_⟩
      split at h
      · next l =>
          refine Or.inl ⟨l, rfl, ?_⟩
          split at h
          · next nodeId workspaceId hload =>
              cases h
              exact Or.inl ⟨nodeId, workspaceId, hload, rfl⟩
          · cases h
            exact Or.inr rfl
      · next nodeId state t =>
          cases h
          exact Or.inr (Or.inl ⟨nodeId, state, t, rfl, rfl⟩)
      · next nodeId =>
          cases h
          exact Or.inr (Or.inr ⟨nodeId, rfl, rfl⟩)

/-- The transaction of `updateNodeRow` ends: it has not been executed, it finds no row,
or it has written the row. -/
theorem updateNodeRow_cases {save : SaveId} {reply : Reply} {now : ℕ}
    (h : s.updateNodeRow save reply now = some s') :
    ∃ c, s.saves save = some c ∧ c.phase = .updateNodeRow ∧
      ((reply.executed = false ∧ s' = s.rejectSave save c false .database) ∨
        (reply.executed = true ∧ s.nodes c.nodeId = none ∧
          s' = s.rejectSave save c false (.nodeGone c.nodeId)) ∨
        ∃ row, reply.executed = true ∧ s.nodes c.nodeId = some row ∧
          let s₁ : State := { s with
            nodes := Function.update s.nodes c.nodeId (some (writtenRow row c now)) }
          (reply = .ok ∧ s' = s₁.setSave save c
              (.syncNodeAttachments ⟨(writtenRow row c now).version, now⟩)) ∨
            (reply ≠ .ok ∧ s' = s₁.rejectSave save c true .database)) := by
  unfold updateNodeRow at h
  split at h
  · cases h
  · next c hsave =>
      split at h
      · next hphase =>
          refine ⟨c, hsave, hphase, ?_⟩
          split at h
          · next hexecuted =>
              split at h
              · next hnone =>
                  cases h
                  exact Or.inr (Or.inl ⟨hexecuted, hnone, rfl⟩)
              · next row hrow =>
                  refine Or.inr (Or.inr ⟨row, hexecuted, hrow, ?_⟩)
                  split at h
                  · next hok =>
                      cases h
                      exact Or.inl ⟨hok, rfl⟩
                  · next hok =>
                      cases h
                      exact Or.inr ⟨hok, rfl⟩
          · next hexecuted =>
              cases h
              exact Or.inl ⟨Bool.eq_false_of_not_eq_true hexecuted, rfl⟩
      · cases h

/-- `syncNodeAttachments` ends. -/
theorem attachmentsSynced_cases {save : SaveId} {ok : Bool}
    (h : s.attachmentsSynced save ok = some s') :
    ∃ c persisted, s.saves save = some c ∧ c.phase = .syncNodeAttachments persisted ∧
      ((ok = true ∧ s' = s.setSave save c (.resolved persisted)) ∨
        ok = false ∧ s' = s.rejectSave save c true .database) := by
  unfold attachmentsSynced at h
  split at h
  · cases h
  · next c hsave =>
      split at h
      · next persisted hphase =>
          refine ⟨c, persisted, hsave, hphase, ?_⟩
          split at h
          · next hok =>
              cases h
              exact Or.inl ⟨hok, rfl⟩
          · next hok =>
              cases h
              exact Or.inr ⟨Bool.eq_false_of_not_eq_true hok, rfl⟩
      · cases h

/-! ### Timers and shutdown -/

/-- A save timer that fires submits a flush, an idle timer evicts. -/
theorem fireTimer_cases {timer : TimerId} (h : s.fireTimer timer = some s') :
    ∃ nodeId, (s.mem.timers timer = some (.save nodeId) ∧
          s' = State.flushDoc { s with mem := s.mem.clearTimeout (some timer) } nodeId .saveTimer) ∨
        s.mem.timers timer = some (.idle nodeId) ∧
          s' = { s with mem := (s.mem.clearTimeout (some timer)).evictDoc nodeId } := by
  unfold fireTimer at h
  split at h
  · cases h
  · next kind htimer =>
      cases kind with
      | save nodeId =>
          cases h
          exact ⟨nodeId, Or.inl ⟨htimer, rfl⟩⟩
      | idle nodeId =>
          cases h
          exact ⟨nodeId, Or.inr ⟨htimer, rfl⟩⟩

/-- The shutdown ends with `docs.clear()`. -/
theorem finishDestroy_cases (h : s.finishDestroy = some s') :
    ∃ call, s.shutdown = .flushing call ∧
      s' = { s with mem := s.mem.clear, shutdown := .done } := by
  unfold finishDestroy at h
  split at h
  · next call hshutdown =>
      split at h
      · cases h
        exact ⟨call, hshutdown, rfl⟩
      · cases h
  · cases h

end State

end AideepWebsocket.DocManager
