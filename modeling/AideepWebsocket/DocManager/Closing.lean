import AideepWebsocket.DocManager.Skips
import AideepWebsocket.DocManager.Timers
import AideepWebsocket.DocManager.Updates
import AideepWebsocket.DocManager.FlushAll

/-!
# Documents that are about to be removed

A managed document leaves memory in two ways.  Its last client leaves, and the idle timer
fires; or the process shuts down, and `docs` is cleared.  Both begin with a flush: the
last leave submits one, and the `flushAll` of `onModuleDestroy` submits one for each of
the nodes that it has taken.  This module follows such a flush until it starts.

* `State.Left`, `State.Closing` — the document waits to be removed;
* `State.Queued` — a flush of the node has been submitted, and has not started;
* `State.Due` — a `flushAll` has taken the node, and its flush has not started.

A document has been left by a `removeClient`, which has submitted a flush
(`left_of_step`); a flush that is queued stays so until it starts (`queued_of_step`), and
so does one that is due (`due_of_step`); and when a `flushAll` has resolved none of its
flushes is due any more (`not_due_of_resolved`).
-/

namespace AideepWebsocket.DocManager

open Library

variable {lex : Lexical} {s s' : State} {e : Event} {n : NodeId} {call : ℕ}

/-- The entry has no client and holds an idle timer: its last client has left. -/
def ManagedDoc.left (d : ManagedDoc) : Bool := d.clients = ∅ ∧ d.idleTimer.isSome = true

/-- `onModuleDestroy` awaits its `flushAll`. -/
def Shutdown.isFlushing : Shutdown → Bool
  | .flushing _ => true
  | _ => false

namespace State

/-- The last client of the managed document has left. -/
def Left (s : State) (n : NodeId) : Prop :=
  ∃ r ∈ s.mem.docs n, (s.mem.heap r).left = true

/-- The managed document of the node is about to be removed. -/
def Closing (s : State) (n : NodeId) : Prop :=
  s.Left n ∨ s.shutdown.isFlushing = true

/-- A task of this kind waits in the queue of the node. -/
def Queued (s : State) (n : NodeId) (kind : TaskKind) : Prop :=
  ∃ t < s.queue.next, ∃ entry ∈ s.queue.task t,
    entry.key = n ∧ entry.payload.kind = kind ∧ entry.payload.stage = .queued

/-- The `flushAll` has taken the node, and its flush of it has not started. -/
def Due (s : State) (call : ℕ) (n : NodeId) : Prop :=
  (∃ c ∈ s.flushAlls call, n ∈ c.nodeIds.drop c.cursor) ∨
    s.Queued n (.flushDoc (.flushAll call))

instance (s : State) (n : NodeId) : Decidable (s.Left n) := by
  unfold Left
  infer_instance

instance (s : State) (n : NodeId) : Decidable (s.Closing n) := by
  unfold Closing
  infer_instance

instance (s : State) (n : NodeId) (kind : TaskKind) : Decidable (s.Queued n kind) := by
  unfold Queued
  infer_instance

/-- A task that has been submitted waits. -/
theorem queued_of_submit {kind : TaskKind} (hqueue : s'.queue = (s.runExclusive n kind).queue) :
    s'.Queued n kind := by
  unfold Queued
  rw [hqueue]
  exact ⟨s.queue.next, Nat.lt_succ_self _, _, PromiseChain.submit_task_self _ _ _ rfl, rfl, rfl,
    rfl⟩

end State

/-! ### Who has left -/

/-- An assignment after which an entry has been left only if it had been. -/
private theorem left_of_modify {m : Memory} {q r : DocRef} {f : ManagedDoc → ManagedDoc}
    (hf : r = q → (f (m.heap q)).left = true → (m.heap q).left = true)
    (h : ((m.modify q f).heap r).left = true) : (m.heap r).left = true := by
  by_cases hr : r = q
  · subst hr
    refine hf rfl ?_
    simpa [Memory.modify] using h
  · simpa [Memory.modify, hr] using h

private theorem left_of_cancelIdle {m : Memory} {q r : DocRef}
    (h : ((m.cancelIdle q).heap r).left = true) : (m.heap r).left = true := by
  unfold Memory.cancelIdle at h
  split at h
  · exact h
  · rw [← m.heap_clearTimeout]
    refine left_of_modify (fun _ hleft => ?_) h
    -- the handle is gone
    simp [ManagedDoc.left] at hleft

private theorem left_of_scheduleSave {m : Memory} {n' : NodeId} {userId : Option UserId}
    {r : DocRef} (h : ((m.scheduleSave n' userId).heap r).left = true) :
    (m.heap r).left = true := by
  unfold Memory.scheduleSave at h
  split at h
  · exact h
  · next q _ =>
      have hold : (((m.clearTimeout (m.heap q).saveTimer).setTimeout (.save n')).heap r).left =
          true := left_of_modify (fun _ hleft => hleft) h
      have hheap : ((m.clearTimeout (m.heap q).saveTimer).setTimeout (.save n')).heap = m.heap :=
        m.heap_clearTimeout (m.heap q).saveTimer
      rwa [hheap] at hold

/-- `removeClient` submits a flush when the last client leaves. -/
private theorem left_of_removeClient {n' : NodeId} {k : SocketId} {q r : DocRef}
    (hq : s.mem.docs n' = some q) (h : ((s.removeClient n' k).mem.heap r).left = true) :
    (s.mem.heap r).left = true ∨
      r = q ∧ (s.removeClient n' k).Queued n' (.flushDoc .lastLeave) := by
  rw [mem_removeClient hq] at h
  by_cases hlast : (s.mem.heap q).clients.erase k = ∅
  · by_cases hr : r = q
    · refine Or.inr ⟨hr, ?_⟩
      have hqueue : (s.removeClient n' k).queue = (s.flushDoc n' .lastLeave).queue := by
        simp [State.removeClient, hq, Memory.modify, hlast]
      exact State.queued_of_submit hqueue
    · rw [if_pos hlast] at h
      refine Or.inl ?_
      simpa [Memory.modify, Memory.setTimeout, hr] using h
  · rw [if_neg hlast] at h
    refine Or.inl (left_of_modify (fun _ hleft => ?_) h)
    simp [ManagedDoc.left, hlast] at hleft

/-- **Who has left**: the entry had been left before, or its last client is just leaving,
and a flush waits in the queue. -/
theorem left_of_step (hI : Inv s) (h : step lex s e = some s') {r : DocRef}
    (hr : s'.mem.docs n = some r) (hleft : (s'.mem.heap r).left = true) :
    s.mem.docs n = some r ∧ (s.mem.heap r).left = true ∨
      s'.Queued n (.flushDoc .lastLeave) := by
  rcases docs_or_put_of_step h hr with hdocs | ⟨l, x, doc, rfl, hload, rfl, hdoc, -⟩
  swap
  · -- an entry that has just been put has no idle timer
    obtain ⟨y, hy, ⟨-, rfl⟩ | ⟨state, ws, rfl, -⟩⟩ := State.continueLoad_cases s h
    · exact Or.inl ⟨hr, hleft⟩
    · by_cases hnew : r = s.mem.nextRef
      · subst hnew
        have hput : (s.finishLoad l y state ws).mem.heap s.mem.nextRef =
            ManagedDoc.loaded ((state.map fun u => applyUpdate ⊥ u).getD ⊥) ws :=
          Function.update_self ..
        rw [hput] at hleft
        cases hleft
      · have hother : (s.finishLoad l y state ws).mem.heap r = s.mem.heap r :=
          Function.update_of_ne hnew ..
        have hold : s.mem.docs x.nodeId = some r := by
          rcases docs_of_step h hr with hold | ⟨rfl, -, -⟩
          · exact hold
          · exact absurd rfl hnew
        exact Or.inl ⟨hold, hother ▸ hleft⟩
  have hsame : s'.mem.heap r = s.mem.heap r → s.mem.docs n = some r ∧
      (s.mem.heap r).left = true ∨ s'.Queued n (.flushDoc .lastLeave) := fun hheap =>
    Or.inl ⟨hdocs, hheap ▸ hleft⟩
  cases step_timers h with
  | same hentries =>
      refine Or.inl ⟨hdocs, ?_⟩
      simpa [ManagedDoc.left, hentries.clients, hentries.idleTimer] using hleft
  | reopen a m q _ _ hmem =>
      rw [hmem] at hleft
      exact Or.inl ⟨hdocs, left_of_cancelIdle hleft⟩
  | addClient m k q _ _ hmem =>
      rw [hmem] at hleft
      refine Or.inl ⟨hdocs, left_of_modify (fun _ hadded => ?_) hleft⟩
      simp [ManagedDoc.left] at hadded
  | removeClient m k q he hq hmem =>
      subst he
      cases h
      rcases left_of_removeClient hq hleft with hold | ⟨rfl, hqueued⟩
      · exact Or.inl ⟨hdocs, hold⟩
      · obtain rfl := hI.docs_inj hdocs hq
        exact Or.inr hqueued
  | scheduleSave m userId q _ hq hmem =>
      rw [hmem] at hleft
      exact Or.inl ⟨hdocs, left_of_scheduleSave hleft⟩
  | drop m _ hmem => exact hsame (by rw [hmem, Memory.heap_drop])
  | fired timer m _ _ hmem => exact hsame (by rw [hmem, Memory.heap_clearTimeout])
  | evict timer m _ _ hmem =>
      refine hsame ?_
      rw [hmem]
      rcases Memory.evictDoc_cases (s.mem.clearTimeout (some timer)) m with ⟨heq, -⟩ | ⟨heq, -⟩ <;>
        rw [heq]
      · rfl
      · rw [Memory.heap_drop]
        rfl
  | put l m doc ws _ _ hmem =>
      refine hsame ?_
      rw [hmem]
      exact Function.update_of_ne (hI.docs_lt hdocs).ne ..
  | flush m q mem hentries _ hmem =>
      have hleft : ((mem.startFlush q).heap r).left = true := by
        simpa [ManagedDoc.left, hmem.clients, hmem.idleTimer] using hleft
      have hold : (mem.heap r).left = true := by
        rw [← mem.heap_clearTimeout (mem.heap q).saveTimer]
        exact left_of_modify (fun _ hleft => hleft) hleft
      refine Or.inl ⟨hdocs, ?_⟩
      simpa [ManagedDoc.left, hentries.clients, hentries.idleTimer] using hold
  | clear _ hmem =>
      rw [hmem] at hr
      cases hr
  | restart _ hs' =>
      rw [hs'] at hr
      cases hr

/-! ### Flushes that wait -/

private theorem phase_of_queued {x : Task} (h : x.stage = .queued) : x.phase = .queued := by
  unfold Task.stage Phase.stage at h
  split at h <;> first | assumption | cases h

/-- A task leaves the queue when it starts, or with its process. -/
private theorem TaskStep.of_queued {t : TaskId} {entry : ChainTask NodeId Task} {x : Task}
    (hstep : TaskStep s e s' t entry x) (h : step lex s e = some s')
    (htask : s.queue.task t = some entry) (hphase : entry.payload.phase = .queued) :
    x.stage = .queued ∨ e = .startTask t ∨ e = .restart := by
  have happend : ∀ clientId, e ≠ .resumeAppend t clientId := by
    rintro clientId rfl
    obtain ⟨entry₁, await, -, -, -, htask₁, hphase₁, -⟩ := State.resumeAppend_step s h
    obtain rfl : entry = entry₁ := Option.some.inj (htask.symm.trans htask₁)
    rw [hphase] at hphase₁
    cases hphase₁
  have hcontinue : e ≠ .continueFlush t := by
    rintro rfl
    obtain ⟨entry₁, htask₁, hcase⟩ := State.continueFlush_cases s h
    obtain rfl : entry = entry₁ := Option.some.inj (htask.symm.trans htask₁)
    rcases hcase with ⟨result, -, hphases⟩ | ⟨r, save, sv, persisted, hphase₁, -⟩
    · rcases hphases with ⟨_, _, hphase₁, -⟩ | ⟨_, _, hphase₁, -⟩ | ⟨_, _, _, _, _, hphase₁, -⟩ <;>
        · rw [hphase] at hphase₁
          cases hphase₁
    · rw [hphase] at hphase₁
      cases hphase₁
  have hstart : (e = .startTask t ∨ ∃ clientId, e = .resumeAppend t clientId) →
      x.stage = .queued ∨ e = .startTask t ∨ e = .restart := by
    rintro (he | ⟨clientId, he⟩)
    · exact Or.inr (Or.inl he)
    · exact absurd he (happend clientId)
  have hlater : ∀ {phase : Phase}, entry.payload.phase = phase → phase ≠ .queued →
      x.stage = .queued ∨ e = .startTask t ∨ e = .restart := fun heq hne =>
    absurd (heq.symm.trans hphase) hne
  cases hstep with
  | stay => exact Or.inl (by simp [Task.stage, hphase, Phase.stage])
  | load await he _ => exact Or.inr (Or.inl he)
  | fail x failure _ _ _ _ _ he =>
      rcases he with he | ⟨clientId, he⟩ | he
      · exact Or.inr (Or.inl he)
      · exact absurd he (happend clientId)
      · exact absurd he hcontinue
  | skip x r persisted _ he => exact hstart he
  | save x c _ he => exact hstart he
  | refreshReplied r persisted ok hphase₁ => exact hlater hphase₁ (by simp)
  | saveReplied r save sv ok failure failure' hphase₁ => exact hlater hphase₁ (by simp)
  | saveRejected r save sv redis first failure hphase₁ => exact hlater hphase₁ (by simp)
  | refreshed r persisted hphase₁ => exact hlater hphase₁ (by simp)
  | saved r save sv persisted phase hphase₁ => exact hlater hphase₁ (by simp)
  | embedded r persisted job hphase₁ => exact hlater hphase₁ (by simp)
  | returned result hphase₁ => exact hlater hphase₁ (by simp)
  | gone he => exact Or.inr (Or.inr he)

/-- **A flush that is queued** stays so until it starts. -/
theorem queued_of_step {caller : FlushCaller} (h : step lex s e = some s')
    (hq : s.Queued n (.flushDoc caller)) : s'.Queued n (.flushDoc caller) ∨
      (∃ t mem, e = .startTask t ∧ s.flushed lex e = some (n, mem)) ∨ e = .restart := by
  obtain ⟨t, -, entry, htask, rfl, hkind, hstage⟩ := hq
  have htask : s.queue.task t = some entry := htask
  obtain ⟨entry', htask', hkey, hstep⟩ := step_task h htask
  rcases hstep.of_queued h htask (phase_of_queued hstage) with hqueued | rfl | rfl
  · exact Or.inl ⟨t, s'.queue.lt_next htask', entry', htask', hkey, hstep.kind.trans hkind, hqueued⟩
  · exact Or.inr (Or.inl ⟨t, s.mem, rfl, by simp [State.flushed, htask, hkind]⟩)
  · exact Or.inr (Or.inr rfl)

namespace State

/-! ### Flushes that are due -/

theorem Queued.of_submit {kind kind' : TaskKind} {n' : NodeId}
    (hqueue : s'.queue = (s.runExclusive n' kind').queue) (hq : s.Queued n kind) :
    s'.Queued n kind := by
  obtain ⟨t, hlt, entry, htask, hkey⟩ := hq
  have hsubmit : s'.queue.task t = s.queue.task t := by
    rw [hqueue]
    exact PromiseChain.submit_task_of_ne _ _ _ rfl hlt.ne
  refine ⟨t, ?_, entry, hsubmit ▸ htask, hkey⟩
  rw [hqueue]
  exact hlt.trans (Nat.lt_succ_self _)

/-- A worker that goes on submits the flush that it takes. -/
theorem Due.nextFlush (h : s.Due call n) (call' : ℕ) : (s.nextFlush call').Due call n := by
  unfold State.nextFlush
  cases hentry : s.flushAlls call' with
  | none => exact h
  | some c =>
      dsimp only
      cases hnode : c.nodeIds[c.cursor]? with
      | none =>
          rcases h with ⟨c₁, hc₁, hn⟩ | hq
          · refine Or.inl ?_
            by_cases hcall : call = call'
            · subst hcall
              obtain rfl : c = c₁ := Option.some.inj (hentry.symm.trans hc₁)
              exact ⟨_, Function.update_self .., hn⟩
            · exact ⟨c₁, (Function.update_of_ne hcall ..).trans hc₁, hn⟩
          · exact Or.inr hq
      | some n' =>
          rcases h with ⟨c₁, hc₁, hn⟩ | hq
          · by_cases hcall : call = call'
            · subst hcall
              obtain rfl : c = c₁ := Option.some.inj (hentry.symm.trans hc₁)
              obtain ⟨hlt, hget⟩ := List.getElem?_eq_some_iff.mp hnode
              rw [List.drop_eq_getElem_cons hlt, hget] at hn
              rcases List.mem_cons.mp hn with rfl | hn
              · exact Or.inr (queued_of_submit (s := { s with
                  flushAlls := Function.update s.flushAlls call
                    (some { c with cursor := c.cursor + 1 }) }) rfl)
              · exact Or.inl ⟨_, Function.update_self .., hn⟩
            · exact Or.inl ⟨c₁, (Function.update_of_ne hcall ..).trans hc₁, hn⟩
          · exact Or.inr (Queued.of_submit (s := { s with
              flushAlls := Function.update s.flushAlls call'
                (some { c with cursor := c.cursor + 1 }) }) rfl hq)

/-- A `flushAll` takes the nodes that are managed when it starts. -/
theorem due_of_flushAll (hn : n ∈ s.mem.keys) : s.flushAll.Due s.nextFlushAll n := by
  apply flushAll_induction (P := fun s₁ => s₁.Due s.nextFlushAll n)
  · exact Or.inl ⟨_, Function.update_self .., hn⟩
  · intro s₁ hdue
    exact hdue.nextFlush s.nextFlushAll

/-- When a `flushAll` has resolved, none of its flushes is due. -/
theorem not_due_of_resolved (hF : FlushAllInv s) (h : s.FlushAllResolved call) :
    ¬ s.Due call n := by
  obtain ⟨c, hc, hworkers⟩ := Option.map_eq_some_iff.mp h
  have hcall := hF.calls hc
  have hflushing := hcall.flushing
  rw [hworkers, Nat.add_zero, Finset.card_eq_zero] at hflushing
  rintro (⟨c₁, hc₁, hn⟩ | ⟨t, -, entry, htask, rfl, hkind, hstage⟩)
  · obtain rfl : c = c₁ := Option.some.inj (hc.symm.trans hc₁)
    have hend : c.nodeIds.length ≤ c.cursor := by
      rcases hcall.workers with hmin | ⟨-, hcursor⟩
      · have hmin : min FLUSH_CONCURRENCY c.nodeIds.length = 0 := hmin.symm.trans hworkers
        unfold FLUSH_CONCURRENCY at hmin
        omega
      · exact hcursor.ge
    rw [List.drop_eq_nil_of_le hend] at hn
    cases hn
  · have htask : s.queue.task t = some entry := htask
    have hmem : t ∈ s.flushingOf call := by
      refine mem_flushingOf.mpr ⟨entry.key, ?_⟩
      rw [flushCall, htask, Option.bind_some, hkind, phase_of_queued hstage]
      rfl
    rw [hflushing] at hmem
    cases hmem

end State

/-- **A flush that is due** stays so until it starts. -/
theorem due_of_step (hF : s.FlushAllInv) (h : step lex s e = some s') (hdue : s.Due call n) :
    s'.Due call n ∨ (∃ t mem, e = .startTask t ∧ s.flushed lex e = some (n, mem)) ∨
      e = .restart := by
  rcases hdue with ⟨c, hc, hn⟩ | hqueued
  · cases State.flushAllStep_of_step h with
    | same hsame => exact Or.inl (Or.inl ⟨c, hsame.flushAlls ▸ hc, hn⟩)
    | started he hsame =>
        have hne : call ≠ s.nextFlushAll := by
          rintro rfl
          have hnone := (hF.fresh le_rfl).1
          rw [hnone] at hc
          cases hc
        refine Or.inl (Or.inl ⟨c, ?_, hn⟩)
        rw [hsame.flushAlls, (hF.flushAll.2.2.1 call hne).1]
        exact hc
    | turned t call' n' s₁ _ hcalls =>
        have hdue : s₁.Due call n := Or.inl ⟨c, hcalls ▸ hc, hn⟩
        exact Or.inl (hdue.nextFlush call')
    | restart he => exact Or.inr (Or.inr he)
  · exact (queued_of_step h hqueued).imp_left Or.inr

/-! ### The shutdown -/

namespace State

private theorem shutdown_nextFlush (s : State) (call : ℕ) :
    (s.nextFlush call).shutdown = s.shutdown := by
  unfold State.nextFlush
  split
  · rfl
  · dsimp only
    split <;> rfl

private theorem shutdown_flushAll (s : State) : s.flushAll.shutdown = s.shutdown := by
  apply flushAll_induction (P := fun s₁ => s₁.shutdown = s.shutdown)
  · rfl
  · intro s₁ h
    exact (shutdown_nextFlush s₁ s.nextFlushAll).trans h

private theorem shutdown_getOrCreateDoc (s : State) (n : NodeId) (ws : WorkspaceId) :
    (s.getOrCreateDoc n ws).1.shutdown = s.shutdown := by
  unfold getOrCreateDoc
  split
  · rfl
  · split <;> rfl

private theorem shutdown_finishAwait (s : State) (n : NodeId) (await : Await) :
    (s.finishAwait n await).shutdown = s.shutdown := by
  unfold finishAwait
  split <;> rfl

private theorem shutdown_flushDocLocked (s : State) (t : TaskId) (x : Task)
    (knownMarkdown : Option String) :
    (s.flushDocLocked lex t x n knownMarkdown).shutdown = s.shutdown := by
  unfold flushDocLocked
  split
  · rfl
  · dsimp only
    split
    · rfl
    · split
      · rfl
      · split <;> rfl

private theorem shutdown_removeClient (s : State) (k : SocketId) :
    (s.removeClient n k).shutdown = s.shutdown := by
  unfold removeClient
  split
  · rfl
  · dsimp only
    split <;> rfl

private theorem shutdown_saveToRedisReply (s : State) (t : TaskId) (ok : Bool) :
    (s.saveToRedisReply t ok).shutdown = s.shutdown := by
  unfold saveToRedisReply
  split
  · rfl
  · split <;> rfl

private theorem shutdown_rejectSave (s : State) (save : SaveId) (c : SaveCall) (committed : Bool)
    (failure : Failure) : (s.rejectSave save c committed failure).shutdown = s.shutdown := by
  unfold rejectSave
  dsimp only
  split
  · rfl
  · split
    · split <;> rfl
    · rfl

private theorem shutdown_handleFlushError (s : State) (failure : Failure) :
    (s.handleFlushError n failure).shutdown = s.shutdown := by
  unfold handleFlushError
  split <;> rfl

private theorem shutdown_resumeTask {t : TaskId} (h : s.resumeTask t = some s') :
    s'.shutdown = s.shutdown := by
  obtain ⟨entry, result, -, -, hcase⟩ := resumeTask_cases s h
  rcases hcase with ⟨ws, markdown, userId, -, rfl⟩ | ⟨caller, s₂, -, hresult, hcaller⟩
  · rfl
  · have hs₂ : s₂.shutdown = s.shutdown := by
      rcases hresult with ⟨persisted, -, rfl⟩ | ⟨failure, -, rfl⟩
      · rfl
      · exact shutdown_handleFlushError _ failure
    rcases hcaller with ⟨call, -, rfl⟩ | ⟨-, rfl⟩
    · rw [shutdown_nextFlush, hs₂]
    · exact hs₂

/-- **The shutdown** begins with `onModuleDestroy` and waits for its `flushAll`. -/
theorem shutdown_of_step (h : step lex s e = some s') (hflushing : s'.shutdown = .flushing call) :
    s.shutdown = .flushing call ∨
      e = .onModuleDestroy ∧ s' = s.onModuleDestroy ∧ call = s.nextFlushAll := by
  have hsame : s'.shutdown = s.shutdown → s.shutdown = .flushing call ∨
      e = .onModuleDestroy ∧ s' = s.onModuleDestroy ∧ call = s.nextFlushAll := fun heq =>
    Or.inl (heq ▸ hflushing)
  cases e with
  | getOrCreateDoc n ws =>
      cases h
      exact hsame (shutdown_getOrCreateDoc s n ws)
  | resumeGet get =>
      simp only [step] at h
      split at h
      · cases h
      · split at h <;> cases h
        exact hsame (shutdown_finishAwait s _ _)
  | removeClient n k =>
      cases h
      exact hsame (shutdown_removeClient s k)
  | flushInterval =>
      simp only [step] at h
      split at h <;> cases h
      exact hsame (shutdown_flushAll s)
  | onModuleDestroy =>
      simp only [step] at h
      split at h <;> cases h
      cases hflushing
      exact Or.inr ⟨rfl, rfl, rfl⟩
  | finishDestroy =>
      obtain ⟨call', -, rfl⟩ := finishDestroy_cases s h
      cases hflushing
  | fireTimer timer =>
      obtain ⟨n, ⟨-, rfl⟩ | ⟨-, rfl⟩⟩ := fireTimer_cases s h <;> exact hsame rfl
  | continueLoad l =>
      obtain ⟨x, -, ⟨-, rfl⟩ | ⟨state, ws, rfl, -⟩⟩ := continueLoad_cases s h <;>
        exact hsame rfl
  | dbReply l ok clientId =>
      obtain ⟨n, ws, -, rfl⟩ := dbReply_cases s h
      exact hsame rfl
  | startTask t =>
      obtain ⟨entry, -, -, -, ⟨caller, -, rfl⟩ | ⟨ws, markdown, userId, -, rfl⟩⟩ :=
        startTask_cases s h
      · exact hsame (shutdown_flushDocLocked s t _ _)
      · exact hsame (shutdown_getOrCreateDoc s entry.key ws)
  | resumeAppend t clientId =>
      obtain ⟨entry, await, ws, markdown, userId, -, -, -, hcase⟩ := resumeAppend_cases s h
      rcases hcase with ⟨failure, -, rfl⟩ | ⟨r, result, -, -, ⟨-, rfl⟩ | ⟨r', -, rfl⟩⟩
      · exact hsame (shutdown_finishAwait s entry.key await)
      · exact hsame (shutdown_finishAwait s entry.key await)
      · refine hsame ((shutdown_flushDocLocked _ t _ _).trans ?_)
        exact shutdown_finishAwait s entry.key await
  | continueFlush t =>
      obtain ⟨entry, -, ⟨result, rfl, -⟩ | ⟨r, save, sv, persisted, -, -, ⟨-, rfl⟩ | ⟨userId, rfl⟩⟩⟩ :=
        continueFlush_cases s h <;> exact hsame rfl
  | enqueued t ok =>
      obtain ⟨entry, r, persisted, job, -, -, rfl⟩ := enqueued_cases s h
      exact hsame rfl
  | resumeTask t => exact hsame (shutdown_resumeTask h)
  | redisReply reply =>
      obtain ⟨cmd, rest, -, hcase⟩ := redisReply_cases s h
      rcases hcase with ⟨l, -, ⟨nodeId, ws, -, rfl⟩ | rfl⟩ | ⟨n, state, t, -, rfl⟩ | ⟨n, -, rfl⟩
      · exact hsame rfl
      · exact hsame rfl
      · exact hsame (shutdown_saveToRedisReply _ t _)
      · exact hsame rfl
  | updateNodeRow save reply now =>
      obtain ⟨c, -, -, ⟨-, rfl⟩ | ⟨-, -, rfl⟩ | ⟨row, -, -, ⟨-, rfl⟩ | ⟨-, rfl⟩⟩⟩ :=
        updateNodeRow_cases s h
      · exact hsame (shutdown_rejectSave ..)
      · exact hsame (shutdown_rejectSave ..)
      · exact hsame rfl
      · exact hsame (shutdown_rejectSave ..)
  | attachmentsSynced save ok =>
      obtain ⟨c, persisted, -, -, ⟨-, rfl⟩ | ⟨-, rfl⟩⟩ := attachmentsSynced_cases s h
      · exact hsame rfl
      · exact hsame (shutdown_rejectSave ..)
  | writeNode n row =>
      simp only [step] at h
      split at h <;> cases h
      exact hsame rfl
  | restart =>
      cases h
      cases hflushing
  | _ =>
      cases h
      exact hsame rfl

end State

end AideepWebsocket.DocManager
