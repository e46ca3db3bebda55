import AideepWebsocket.DocManager.Invariant

/-!
# Who is in a document

Only `addClient` makes a socket a client of a managed document.  Every other method
leaves the clients of an entry alone, or removes some, or drops the entry, and an
entry that `loadDoc` has just put has none; `Memory.Retains` is this relation, and
`retains_of_step` says that every event but `addClient` stays within it.  For a
sequence of calls, `clients_of_exec` says where a client has come from, and
`notMem_of_exec` that `removeClient` has removed it.
-/

namespace AideepWebsocket.DocManager

open Library

namespace Memory

variable {m m' m₁ m₂ : Memory}

/-- The sockets that are in the managed document of a node. -/
def clients (m : Memory) (n : NodeId) : Finset SocketId :=
  ((m.get n).map ManagedDoc.clients).getD ∅

/-- The clients of a managed node are those of its document. -/
theorem clients_of_docs {n : NodeId} {r : DocRef} (h : m.docs n = some r) :
    m.clients n = (m.heap r).clients := by
  simp [clients, Memory.get, h]

/-- A node that is not managed has no client. -/
theorem mem_clients {n : NodeId} {k : SocketId} :
    k ∈ m.clients n ↔ ∃ r, m.docs n = some r ∧ k ∈ (m.heap r).clients := by
  cases hr : m.docs n with
  | none => simp [clients, Memory.get, hr]
  | some r => simp [clients_of_docs hr]

/-- No entry gains a client, and a new one has none. -/
structure Retains (m m' : Memory) : Prop where
  heap : ∀ r, (m'.heap r).clients ⊆ (m.heap r).clients
  docs : ∀ n r, m'.docs n = some r → m.docs n = some r ∨ (m'.heap r).clients = ∅

namespace Retains

/-- Doing nothing adds nobody. -/
theorem refl (m : Memory) : Retains m m := ⟨fun _ => subset_rfl, fun _ _ => Or.inl⟩

/-- Neither does one such change after another. -/
theorem trans (h : Retains m m₁) (k : Retains m₁ m₂) : Retains m m₂ where
  heap r := (k.heap r).trans (h.heap r)
  docs n r hr := by
    rcases k.docs n r hr with hr | hempty
    · refine (h.docs n r hr).imp_right fun hempty => ?_
      exact Finset.subset_empty.mp (hempty ▸ k.heap r)
    · exact Or.inr hempty

/-- Clients are in the documents and in the heap, and nowhere else. -/
theorem of_eq (hdocs : m'.docs = m.docs) (hheap : m'.heap = m.heap) : Retains m m' :=
  ⟨fun r => by rw [hheap], fun n r hr => Or.inl (by rwa [hdocs] at hr)⟩

/-- A memory without documents has no clients. -/
theorem of_none (hdocs : ∀ n, m'.docs n = none) (hheap : m'.heap = m.heap) : Retains m m' :=
  ⟨fun r => by rw [hheap], fun n r hr => by simp [hdocs] at hr⟩

/-- Who is a client afterwards was one before. -/
theorem mem (h : Retains m m') {n : NodeId} {k : SocketId} (hk : k ∈ m'.clients n) :
    k ∈ m.clients n := by
  obtain ⟨r, hr, hk⟩ := mem_clients.mp hk
  rcases h.docs n r hr with hold | hempty
  · exact mem_clients.mpr ⟨r, hold, h.heap r hk⟩
  · rw [hempty] at hk
    cases hk

end Retains

/-- Changing a document adds nobody as long as its own clients only get fewer. -/
theorem retains_modify (m : Memory) (r : DocRef) {f : ManagedDoc → ManagedDoc}
    (hf : ∀ d, (f d).clients ⊆ d.clients) : m.Retains (m.modify r f) where
  heap q := by
    by_cases hq : q = r
    · subst hq
      simpa [modify] using hf (m.heap q)
    · simp [modify, hq]
  docs _ _ := Or.inl

/-- Timers have nothing to do with clients. -/
theorem retains_clearTimeout (m : Memory) (timer : Option TimerId) :
    m.Retains (m.clearTimeout timer) := by
  cases timer <;> exact .of_eq rfl rfl

/-- Timers have nothing to do with clients. -/
theorem retains_setTimeout (m : Memory) (timer : Timer) : m.Retains (m.setTimeout timer) :=
  .of_eq rfl rfl

/-- The idle timer is a field of the document beside the clients. -/
theorem retains_cancelIdle (m : Memory) (r : DocRef) : m.Retains (m.cancelIdle r) := by
  unfold cancelIdle
  split
  · exact .refl m
  · exact (retains_clearTimeout m _).trans (retains_modify _ r fun _ => subset_rfl)

/-- A document that has been loaded has no client yet. -/
theorem retains_put (m : Memory) (n : NodeId) (doc : YDoc) (ws : WorkspaceId) :
    m.Retains (m.put n (ManagedDoc.loaded doc ws)) where
  heap q := by
    by_cases hq : q = m.nextRef
    · subst hq
      simp [put, ManagedDoc.loaded]
    · simp [put, hq]
  docs n' r hr := by
    by_cases hn : n' = n
    · subst hn
      obtain rfl : m.nextRef = r := by simpa [put] using hr
      exact Or.inr (by simp [put, ManagedDoc.loaded])
    · exact Or.inl (by simpa [put, hn] using hr)

/-- With a document its clients are gone. -/
theorem retains_drop (m : Memory) (n : NodeId) : m.Retains (m.drop n) := by
  unfold drop
  split
  · exact .refl m
  · next r hr =>
      refine ((retains_clearTimeout m _).trans (retains_clearTimeout _ _)).trans
        ⟨fun _ => subset_rfl, fun n' q hq => Or.inl ?_⟩
      by_cases hn : n' = n
      · simp [hn] at hq
      · simpa [hn] using hq

/-- An eviction clears the timers and drops the document. -/
theorem retains_evictDoc (m : Memory) (n : NodeId) : m.Retains (m.evictDoc n) := by
  rcases m.evictDoc_cases n with ⟨hkept, -⟩ | ⟨hdrop, -⟩
  · rw [hkept]
    exact .refl m
  · rw [hdrop]
    exact retains_drop m n

/-- A save is scheduled by timers and marks. -/
theorem retains_scheduleSave (m : Memory) (n : NodeId) (userId : Option UserId) :
    m.Retains (m.scheduleSave n userId) := by
  unfold scheduleSave
  split
  · exact .refl m
  · exact ((retains_clearTimeout m _).trans (retains_setTimeout _ _)).trans
      (retains_modify _ _ fun _ => subset_rfl)

/-- An update changes what the document holds, and schedules a save. -/
theorem retains_applyToDoc (m : Memory) (n : NodeId) (u : YDoc) :
    m.Retains (m.applyToDoc n u) := by
  unfold applyToDoc
  split
  · exact .refl m
  · exact retains_modify _ _ fun _ => subset_rfl

end Memory

/-! ### The methods -/

namespace State

open Memory

variable (lex : Lexical) (s : State)

/-- A caller becomes a client by `addClient` only, after the load. -/
theorem retains_getOrCreateDoc (n : NodeId) (ws : WorkspaceId) :
    s.mem.Retains (s.getOrCreateDoc n ws).1.mem := by
  unfold getOrCreateDoc
  split
  · exact retains_cancelIdle s.mem _
  · split <;> exact .refl s.mem

/-- A flush changes marks and records of what has been saved. -/
theorem retains_flushDocLocked (t : TaskId) (x : Task) (n : NodeId)
    (knownMarkdown : Option String) :
    s.mem.Retains (s.flushDocLocked lex t x n knownMarkdown).mem := by
  unfold flushDocLocked
  split
  · exact .refl s.mem
  · next r _ =>
      have hstart : s.mem.Retains ((s.mem.clearTimeout (s.mem.heap r).saveTimer).modify r
          fun d => { d with saveTimer := none }) :=
        (retains_clearTimeout s.mem _).trans (retains_modify _ r fun _ => subset_rfl)
      dsimp only
      split
      · refine hstart.trans ?_
        show Retains _ (Memory.modify _ r fun d => { d with dirtyForEmbed := false })
        exact retains_modify _ r fun _ => subset_rfl
      · split
        · exact hstart
        · split <;> exact hstart

/-- A leave takes one client out, and may arm the idle timer. -/
theorem retains_removeClient (n : NodeId) (k : SocketId) :
    s.mem.Retains (s.removeClient n k).mem := by
  unfold removeClient
  split
  · exact .refl s.mem
  · next r _ =>
      have herase : s.mem.Retains (s.mem.modify r fun d =>
          { d with clients := d.clients.erase k }) :=
        retains_modify s.mem r fun d => Finset.erase_subset k d.clients
      dsimp only
      split
      · refine (herase.trans (retains_setTimeout _ (.idle n))).trans ?_
        show Retains _ (Memory.modify _ r fun d => { d with idleTimer := some s.mem.nextTimer })
        exact retains_modify _ r fun _ => subset_rfl
      · exact herase

end State

/-! ### One step -/

variable {lex : Lexical} {s s' : State} {e : Event}

/-- A task begins with its flush, or waits for its document. -/
private theorem retains_startTask {t : TaskId} (h : s.startTask lex t = some s') :
    s.mem.Retains s'.mem := by
  obtain ⟨entry, -, -, -, ⟨caller, -, rfl⟩ | ⟨ws, markdown, userId, -, rfl⟩⟩ :=
    State.startTask_cases s h
  · exact State.retains_flushDocLocked lex s t _ _ _
  · exact State.retains_getOrCreateDoc s entry.key ws

/-- An append applies its update and flushes. -/
private theorem retains_resumeAppend {t : TaskId} {clientId : ClientId}
    (h : s.resumeAppend lex t clientId = some s') : s.mem.Retains s'.mem := by
  obtain ⟨entry, await, ws, markdown, userId, -, -, -, hcase⟩ := State.resumeAppend_cases s h
  rcases hcase with ⟨failure, -, rfl⟩ | ⟨r, result, -, -, hcase⟩
  · exact .of_eq (by simp) (by simp)
  · have hedit : s.mem.Retains (s.mem.modify r fun d =>
        { d with doc := applyUpdate (s.mem.heap r).doc result.added }) :=
      Memory.retains_modify s.mem r fun _ => subset_rfl
    rcases hcase with ⟨-, rfl⟩ | ⟨r', -, rfl⟩
    · exact hedit
    · refine Memory.Retains.trans ?_ (State.retains_flushDocLocked lex _ t _ _ _)
      exact hedit.trans (Memory.retains_modify _ r'
        (f := fun d => { d with dirtyForEmbed := true, lastEditorUserId := some userId })
        fun _ => subset_rfl)

/-- A flush goes on to the embedding queue, or settles. -/
private theorem retains_continueFlush {t : TaskId} (h : s.continueFlush t = some s') :
    s.mem.Retains s'.mem := by
  obtain ⟨entry, -, ⟨result, rfl, -⟩ | ⟨r, save, sv, persisted, -, -, hcase⟩⟩ :=
    State.continueFlush_cases s h
  · exact .refl s.mem
  · have hrecord : s.mem.Retains (s.mem.modify r fun d =>
        { d with lastSavedStateVector := some sv, lastPersisted := some persisted }) :=
      Memory.retains_modify s.mem r fun _ => subset_rfl
    rcases hcase with ⟨-, rfl⟩ | ⟨userId, rfl⟩
    · exact hrecord
    · exact hrecord.trans (Memory.retains_modify _ r
        (f := fun d => { d with dirtyForEmbed := false }) fun _ => subset_rfl)

/-- The caller of a task goes on: it evicts, reports, or starts the next flush. -/
private theorem retains_resumeTask {t : TaskId} (h : s.resumeTask t = some s') :
    s.mem.Retains s'.mem := by
  obtain ⟨entry, -, hmem | ⟨-, hmem⟩⟩ := State.mem_resumeTask s h
  · rw [hmem]
    exact .refl s.mem
  · rw [hmem]
    exact Memory.retains_drop s.mem entry.key

/-- **Only `addClient` adds a client.** -/
theorem retains_of_step (h : step lex s e = some s') (he : ∀ n k, e ≠ .addClient n k) :
    s.mem.Retains s'.mem := by
  cases e with
  | getOrCreateDoc n ws =>
      cases h
      exact State.retains_getOrCreateDoc s n ws
  | addClient n k => exact absurd rfl (he n k)
  | removeClient n k =>
      cases h
      exact State.retains_removeClient s n k
  | applyToDoc n u =>
      cases h
      exact Memory.retains_applyToDoc s.mem n u
  | scheduleSave n userId =>
      cases h
      exact Memory.retains_scheduleSave s.mem n userId
  | cleanupNode n =>
      cases h
      exact Memory.retains_drop s.mem n
  | finishDestroy =>
      obtain ⟨call, -, rfl⟩ := State.finishDestroy_cases s h
      exact .of_none (fun _ => rfl) rfl
  | fireTimer timer =>
      obtain ⟨n, ⟨-, rfl⟩ | ⟨-, rfl⟩⟩ := State.fireTimer_cases s h
      · exact Memory.retains_clearTimeout s.mem (some timer)
      · exact (Memory.retains_clearTimeout s.mem _).trans (Memory.retains_evictDoc _ _)
  | continueLoad l =>
      obtain ⟨x, -, ⟨-, rfl⟩ | ⟨state, ws, rfl, -⟩⟩ := State.continueLoad_cases s h
      · exact .refl s.mem
      · exact Memory.retains_put s.mem _ _ _
  | startTask t => exact retains_startTask h
  | resumeAppend t clientId => exact retains_resumeAppend h
  | continueFlush t => exact retains_continueFlush h
  | resumeTask t => exact retains_resumeTask h
  | restart =>
      cases h
      exact .of_none (fun _ => rfl) rfl
  | _ =>
      rw [mem_of_keepsMemory h trivial]
      exact .refl s.mem

/-! ### A sequence of calls -/

/-- A client was there before, or has been added. -/
theorem clients_of_step (hI : Inv s) (h : step lex s e = some s') {n : NodeId} {k : SocketId}
    (hk : k ∈ s'.mem.clients n) : k ∈ s.mem.clients n ∨ e = .addClient n k := by
  by_cases he : ∃ n' k', e = .addClient n' k'
  · obtain ⟨n', k', rfl⟩ := he
    cases h
    cases hr' : s.mem.docs n' with
    | none =>
        have hsame : s.mem.addClient n' k' = s.mem := by simp [Memory.addClient, hr']
        exact Or.inl (hsame ▸ hk)
    | some r' =>
        have hmem : s.mem.addClient n' k' = s.mem.modify r' fun d =>
            { d with clients := insert k' d.clients } := by simp [Memory.addClient, hr']
        have hin : k ∈ (s.mem.addClient n' k').clients n := hk
        rw [hmem] at hin
        obtain ⟨r, hr, hin⟩ := Memory.mem_clients.mp hin
        have hr : s.mem.docs n = some r := hr
        by_cases hrr : r = r'
        · subst hrr
          obtain rfl := hI.docs_inj hr hr'
          have hin : k ∈ insert k' (s.mem.heap r).clients := by simpa [Memory.modify] using hin
          rcases Finset.mem_insert.mp hin with rfl | hold
          · exact Or.inr rfl
          · exact Or.inl (Memory.mem_clients.mpr ⟨r, hr, hold⟩)
        · exact Or.inl (Memory.mem_clients.mpr ⟨r, hr, by simpa [Memory.modify, hrr] using hin⟩)
  · exact Or.inl ((retains_of_step h fun n' k' heq => he ⟨n', k', heq⟩).mem hk)

/-- `removeClient` removes the client. -/
theorem notMem_of_removeClient {n : NodeId} {k : SocketId}
    (h : step lex s (.removeClient n k) = some s') : k ∉ s'.mem.clients n := by
  cases h
  intro hk
  obtain ⟨r, hr, hk⟩ := Memory.mem_clients.mp hk
  unfold State.removeClient at hr hk
  cases hr' : s.mem.docs n with
  | none =>
      simp only [hr'] at hr
      cases hr
  | some r' =>
      simp only [hr'] at hr hk
      split at hk
      · next hempty =>
          rw [if_pos hempty] at hr
          obtain rfl : r' = r := Option.some.inj (hr'.symm.trans hr)
          simp [Memory.modify, Memory.setTimeout] at hk
      · next hsome =>
          rw [if_neg hsome] at hr
          obtain rfl : r' = r := Option.some.inj (hr'.symm.trans hr)
          simp [Memory.modify] at hk

/-- **Where a client comes from.** -/
theorem clients_of_exec {es : List Event} (hI : Inv s) (hes : exec (step lex) s es = some s')
    {n : NodeId} {k : SocketId} (hk : k ∈ s'.mem.clients n) :
    k ∈ s.mem.clients n ∨ .addClient n k ∈ es := by
  induction es generalizing s with
  | nil =>
      cases hes
      exact Or.inl hk
  | cons e es ih =>
      rw [exec_cons, Option.bind_eq_some_iff] at hes
      obtain ⟨s₁, hstep, hes⟩ := hes
      rcases ih (hI.step hstep) hes with hold | hadd
      · rcases clients_of_step hI hstep hold with hold | rfl
        · exact Or.inl hold
        · exact Or.inr List.mem_cons_self
      · exact Or.inr (List.mem_cons_of_mem _ hadd)

/-- **Who has been removed is gone**, unless it has been added. -/
theorem notMem_of_exec {es : List Event} (hI : Inv s) (hes : exec (step lex) s es = some s')
    {n : NodeId} {k : SocketId} (hremove : .removeClient n k ∈ es)
    (hadd : .addClient n k ∉ es) : k ∉ s'.mem.clients n := by
  induction es generalizing s with
  | nil => cases hremove
  | cons e es ih =>
      rw [exec_cons, Option.bind_eq_some_iff] at hes
      obtain ⟨s₁, hstep, hes⟩ := hes
      have hrest : .addClient n k ∉ es := fun hmem => hadd (List.mem_cons_of_mem _ hmem)
      rcases List.mem_cons.mp hremove with rfl | hremove
      · intro hk
        rcases clients_of_exec (hI.step hstep) hes hk with hold | hmem
        · exact notMem_of_removeClient hstep hold
        · exact hrest hmem
      · exact ih (hI.step hstep) hes hremove hrest

end AideepWebsocket.DocManager
