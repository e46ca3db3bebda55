import AideepWebsocket.DocManager.Durability
import AideepWebsocket.DocManager.Timers

/-!
# The workspace of a managed document

A managed document carries a workspace id: its flushes resolve the attachments of
the node in that workspace and invalidate its sync cache, and its embedding jobs
name it.  `loadDoc` takes the id from its caller, and replaces it by the one of the
row only when the database answers with a state.

* `State.Uses` — where the manager uses a workspace id for a node: the entry in
  `docs`, the flush under way, the save, the embedding job;
* `KnowsWorkspace` — what it uses is the `workspace_id` of the row;
* `Event.InWorkspace` — a load that Redis answered, or for which the database had no
  state, was called with the workspace of the row, and the row of a node that is in
  use is not moved.

A step uses no new id, except when a load ends (`uses_of_step`), so the condition is
exact (`along_knowsWorkspace_iff`).
-/

namespace AideepWebsocket.DocManager

open Library

variable {lex : Lexical} {s s' : State} {e : Event} {n : NodeId} {ws : WorkspaceId}

/-- The workspace id of the entry that `loadDoc` puts into `docs` when it resumes. -/
def Load.entryWorkspace (x : Load) : Option WorkspaceId :=
  match x.phase with
  | .redisAnswered (some _) => some x.workspaceId
  | .dbAnswered (some ⟨some _, ws⟩) => some ws
  | .dbAnswered _ => some x.workspaceId
  | _ => none

/-- `loadDoc` ends with the workspace id of its caller: Redis has answered, or the
database had no state. -/
def LoadPhase.keepsArgument : LoadPhase → Bool
  | .redisAnswered (some _) => true
  | .dbAnswered (some ⟨some _, _⟩) => false
  | .dbAnswered _ => true
  | _ => false

theorem Load.entryWorkspace_cases {x : Load} (h : x.entryWorkspace = some ws) :
    (x.phase.keepsArgument = true ∧ ws = x.workspaceId) ∨
      ∃ state, x.phase = .dbAnswered (some ⟨some state, ws⟩) := by
  obtain ⟨m, argument, phase⟩ := x
  cases phase with
  | redisAnswered state =>
      cases state with
      | none => cases h
      | some state => exact Or.inl ⟨rfl, (Option.some.inj h).symm⟩
  | dbAnswered result =>
      rcases result with _ | ⟨_ | state, found⟩
      · exact Or.inl ⟨rfl, (Option.some.inj h).symm⟩
      · exact Or.inl ⟨rfl, (Option.some.inj h).symm⟩
      · obtain rfl := Option.some.inj h
        exact Or.inr ⟨state, rfl⟩
  | _ => cases h

theorem Load.entryWorkspace_of_keepsArgument {x : Load} (h : x.phase.keepsArgument = true) :
    x.entryWorkspace = some x.workspaceId := by
  obtain ⟨m, argument, phase⟩ := x
  cases phase with
  | redisAnswered state =>
      cases state with
      | none => cases h
      | some state => rfl
  | dbAnswered result =>
      rcases result with _ | ⟨_ | state, found⟩
      · rfl
      · rfl
      · cases h
  | _ => cases h

/-- **The workspace ids in use** for a node. -/
inductive State.Uses (s : State) (n : NodeId) : WorkspaceId → Prop
  | entry (r : DocRef) (hr : s.mem.docs n = some r) : s.Uses n (s.mem.heap r).workspaceId
  | flush (t : TaskId) (entry : ChainTask NodeId Task) (r : DocRef)
      (hentry : s.queue.task t = some entry) (hkey : entry.key = n)
      (hr : entry.payload.phase.flushed = some r) : s.Uses n (s.mem.heap r).workspaceId
  /-- `syncNodeAttachments` and the sync cache. -/
  | save (i : SaveId) (c : SaveCall) (hc : s.saves i = some c) (hnode : c.nodeId = n)
      (hpending : c.phase.pending = true) : s.Uses n c.workspaceId
  | embed (t : TaskId) (entry : ChainTask NodeId Task) (r : DocRef) (persisted : Persisted)
      (job : EmbedJob) (hentry : s.queue.task t = some entry) (hkey : entry.key = n)
      (hphase : entry.payload.phase = .embedding r persisted job) : s.Uses n job.workspaceId

/-- **The manager knows the workspace** of every node that has a row. -/
def KnowsWorkspace (s : State) : Prop :=
  ∀ n ws row, s.Uses n ws → s.nodes n = some row → ws = row.workspaceId

/-- When a load ends without a state from the database, its caller has named the
workspace of the row; the state that the database did answer with came from the
workspace that the row is still in; and another writer leaves the row of a node that
is in use in its workspace. -/
def Event.InWorkspace (e : Event) (s : State) : Prop :=
  match e with
  | .continueLoad l => ∀ x row, s.loader.loads l = some x → s.nodes x.nodeId = some row →
      (x.phase.keepsArgument = true → x.workspaceId = row.workspaceId) ∧
        ∀ state ws, x.phase = .dbAnswered (some ⟨some state, ws⟩) → ws = row.workspaceId
  | .writeNode n row => ∀ ws, s.Uses n ws →
      row.workspaceId = ((s.nodes n).map NodeRow.workspaceId).getD ws
  | _ => True

/-! ### Entries keep their workspace -/

namespace Memory

variable {m m' m₁ m₂ : Memory}

/-- Every entry has the workspace id that it had. -/
private def SameWorkspaces (m m' : Memory) : Prop :=
  ∀ r, (m'.heap r).workspaceId = (m.heap r).workspaceId

private theorem SameWorkspaces.of_heap (h : m'.heap = m.heap) : SameWorkspaces m m' := by
  intro r
  rw [h]

private theorem SameWorkspaces.modify (h : SameWorkspaces m m') (q : DocRef)
    {f : ManagedDoc → ManagedDoc} (hf : ∀ d : ManagedDoc, (f d).workspaceId = d.workspaceId) :
    SameWorkspaces m (m'.modify q f) := by
  intro r
  show ((Function.update m'.heap q (f (m'.heap q))) r).workspaceId = _
  by_cases hr : r = q
  · subst hr
    rw [Function.update_self, hf, h]
  · rw [Function.update_of_ne hr, h]

end Memory

/-- The workspace id of an entry is fixed when the entry is made. -/
theorem entry_workspace_of_step (h : step lex s e = some s') {r : DocRef}
    (hr : r < s.mem.nextRef) : (s'.mem.heap r).workspaceId = (s.mem.heap r).workspaceId := by
  cases step_timers h with
  | same hsame => exact hsame.workspaceId r
  | reopen a m q _ _ hmem =>
      rw [hmem, Memory.cancelIdle]
      split
      · rfl
      · refine Memory.SameWorkspaces.modify (.of_heap ?_) q ?_ r
        · rfl
        · exact fun _ => rfl
  | addClient m k q _ _ hmem =>
      rw [hmem]
      refine Memory.SameWorkspaces.modify (.of_heap rfl) q ?_ r
      exact fun _ => rfl
  | removeClient m k q _ hq hmem =>
      have herase : s.mem.SameWorkspaces
          (s.mem.modify q fun d => { d with clients := d.clients.erase k }) := by
        refine Memory.SameWorkspaces.modify (.of_heap rfl) q ?_
        exact fun _ => rfl
      rw [hmem, mem_removeClient hq]
      split
      · refine Memory.SameWorkspaces.modify ?_ q ?_ r
        · exact herase
        · exact fun _ => rfl
      · exact herase r
  | scheduleSave m userId q _ hq hmem =>
      rw [hmem, Memory.scheduleSave, hq]
      refine Memory.SameWorkspaces.modify (.of_heap ?_) q ?_ r
      · exact Memory.heap_clearTimeout _ _
      · exact fun _ => rfl
  | drop m _ hmem => rw [hmem, Memory.heap_drop]
  | fired timer m _ _ hmem => rw [hmem, Memory.heap_clearTimeout]
  | evict timer m _ _ hmem =>
      rw [hmem]
      rcases (s.mem.clearTimeout (some timer)).evictDoc_cases m with ⟨hkept, -⟩ | ⟨hdrop, -⟩
      · rw [hkept, Memory.heap_clearTimeout]
      · rw [hdrop, Memory.heap_drop, Memory.heap_clearTimeout]
  | put l m doc ws _ _ hmem =>
      rw [hmem]
      exact congrArg ManagedDoc.workspaceId (Function.update_of_ne hr.ne ..)
  | flush m q mem hsame _ hmem =>
      rw [hmem.workspaceId, ← hsame.workspaceId]
      refine Memory.SameWorkspaces.modify (.of_heap ?_) q ?_ r
      · exact Memory.heap_clearTimeout _ _
      · exact fun _ => rfl
  | clear _ hmem =>
      rw [hmem]
      rfl
  | restart _ hs' =>
      rw [hs']
      rfl

/-- Every flush under way holds an entry that has been made. -/
def FlushesMade (s : State) : Prop :=
  ∀ {t entry r}, s.queue.task t = some entry → entry.payload.phase.flushed = some r →
    r < s.mem.nextRef

theorem flushesMade_init (nodes : NodeId → Option NodeRow) : FlushesMade (State.init nodes) := by
  intro t entry r hentry
  cases hentry

theorem flushesMade_of_step (hI' : Inv s') (hF : FlushesMade s) (h : step lex s e = some s') :
    FlushesMade s' := by
  intro t entry' r hentry' hr
  rcases flushed_of_step h hentry' hr with ⟨entry, hentry, -, hr₀⟩ | hdocs
  · exact Nat.lt_of_lt_of_le (hF hentry hr₀) (nextRef_le_of_step h)
  · exact hI'.docs_lt hdocs

/-! ### Saves and jobs take the workspace of their entry -/

private theorem saves_flushDocLocked {t : TaskId} {x : Task} {r : DocRef}
    (hr : s.mem.docs n = some r) {knownMarkdown : Option String} {i : SaveId} {c : SaveCall}
    (hnone : s.saves i = none)
    (hc : (s.flushDocLocked lex t x n knownMarkdown).saves i = some c) :
    c.workspaceId = (s.mem.heap r).workspaceId := by
  have hold : s.saves i = some c → c.workspaceId = (s.mem.heap r).workspaceId := by
    intro hsave
    rw [hnone] at hsave
    cases hsave
  unfold State.flushDocLocked at hc
  rw [hr] at hc
  dsimp only at hc
  split at hc
  · exact hold hc
  · split at hc
    · exact hold hc
    · split at hc
      · exact hold hc
      · change Function.update s.saves s.nextSave _ i = some c at hc
        by_cases hi : i = s.nextSave
        · subst hi
          rw [Function.update_self] at hc
          obtain rfl := Option.some.inj hc
          rfl
        · rw [Function.update_of_ne hi] at hc
          exact hold hc

/-- A call that has just been made took the workspace id of the managed entry. -/
private theorem workspace_of_called (hI : Inv s) (h : step lex s e = some s') {c : SaveCall}
    (hcall : SaveCalled s e s' c) :
    ∃ r, s.mem.docs c.nodeId = some r ∧ c.workspaceId = (s.mem.heap r).workspaceId := by
  have hc : s'.saves s.nextSave = some c := by rw [hcall.saves, Function.update_self]
  have hnone : s.saves s.nextSave = none := by
    cases hsave : s.saves s.nextSave with
    | none => rfl
    | some c => exact absurd (hI.save_lt hsave) (Nat.lt_irrefl _)
  have hcalls : s'.nextSave ≠ s.nextSave := by
    rw [hcall.nextSave]
    exact (Nat.lt_succ_self _).ne'
  obtain ⟨entry, htask, hkey, -⟩ := hcall.before
  rw [← hkey]
  rcases hcall.event with rfl | ⟨clientId, rfl⟩
  · obtain ⟨entry₁, htask₁, -, -, hcase⟩ := State.startTask_cases s h
    obtain rfl : entry = entry₁ := Option.some.inj (htask.symm.trans htask₁)
    rcases hcase with ⟨caller, -, rfl⟩ | ⟨ws, markdown, userId, -, rfl⟩
    · cases hr : s.mem.docs entry.key with
      | none =>
          refine absurd ?_ hcalls
          rw [State.flushDocLocked, hr]
          rfl
      | some r => exact ⟨r, rfl, saves_flushDocLocked hr hnone hc⟩
    · exact absurd (State.getOrCreateDoc_frame s entry.key ws).2.2.2.1 hcalls
  · obtain ⟨entry₁, await, ws, markdown, userId, htask₁, -, -, hcase⟩ :=
      State.resumeAppend_cases s h
    obtain rfl : entry = entry₁ := Option.some.inj (htask.symm.trans htask₁)
    have hframe := State.finishAwait_frame s entry.key await
    rcases hcase with ⟨failure, -, rfl⟩ | ⟨r, result, -, -, ⟨-, rfl⟩ | ⟨r', hr', rfl⟩⟩
    · exact absurd hframe.2.2.2.1 hcalls
    · exact absurd hframe.2.2.2.1 hcalls
    · have hsame : s.mem.SameWorkspaces ((s.mem.modify r fun d =>
          { d with doc := applyUpdate (s.mem.heap r).doc result.added }).modify r' fun d =>
            { d with dirtyForEmbed := true, lastEditorUserId := some userId }) := by
        refine Memory.SameWorkspaces.modify (Memory.SameWorkspaces.modify (.of_heap rfl) r ?_) r' ?_
        · exact fun _ => rfl
        · exact fun _ => rfl
      have hnone' : (s.finishAwait entry.key await).saves s.nextSave = none := by
        rw [hframe.2.2.1, hnone]
      refine ⟨r', hr', ?_⟩
      rw [← hsame r']
      refine saves_flushDocLocked ?_ ?_ hc
      · exact hr'
      · exact hnone'

/-- A job that is being enqueued was so before, or its flush has just ended and takes
the workspace id of its entry. -/
private theorem job_of_step (h : step lex s e = some s') {t : TaskId}
    {entry' : ChainTask NodeId Task} (ht : s'.queue.task t = some entry') {r : DocRef}
    {persisted : Persisted} {job : EmbedJob}
    (hphase : entry'.payload.phase = .embedding r persisted job) :
    ∃ entry, s.queue.task t = some entry ∧ entry'.key = entry.key ∧
      (entry.payload.phase = .embedding r persisted job ∨
        entry.payload.phase.flushed = some r ∧
          job.workspaceId = (s.mem.heap r).workspaceId) := by
  rcases (step_queue h).task ht with ⟨entry, hentry, hkey, htask⟩ | ⟨-, kind, hpay⟩
  · refine ⟨entry, hentry, hkey, ?_⟩
    generalize hx : entry'.payload = x at htask hphase
    cases htask with
    | stay => exact Or.inl hphase
    | fail x f _ _ hfail => rw [hfail] at hphase; cases hphase
    | skip x q p _ _ _ hskip => rw [hskip] at hphase; cases hphase
    | save x c _ _ _ hsave => rw [hsave] at hphase; cases hphase
    | saved q save sv p phase hsaving hsave hcase he =>
        subst he
        rcases hcase with rfl | ⟨job', rfl⟩
        · cases hphase
        · cases hphase
          refine Or.inr ⟨by rw [hsaving]; rfl, ?_⟩
          -- the task has been advanced, so it has the phase that was set
          have hset : ∀ {p' : Task}, (s.queue.advance t p').task t = some entry' →
              p'.phase = .embedding r persisted job := by
            intro p' hadvance
            obtain ⟨entry₁, hentry₁, -, hpay | ⟨-, hpay⟩⟩ :=
              PromiseChain.exists_of_advance hadvance
            · rw [hentry] at hentry₁
              obtain rfl := Option.some.inj hentry₁
              have hphases := congrArg Task.phase (hpay.symm.trans hx)
              rw [hsaving] at hphases
              cases hphases
            · exact congrArg Task.phase (hpay.symm.trans hx)
          obtain ⟨entry₁, hentry₁, hnext⟩ := State.continueFlush_cases s h
          obtain rfl : entry = entry₁ := Option.some.inj (hentry.symm.trans hentry₁)
          rcases hnext with ⟨result, rfl, -⟩ |
            ⟨r, save, sv, persisted, -, -, ⟨-, rfl⟩ | ⟨userId, rfl⟩⟩
          · cases hset ht
          · cases hset ht
          · cases hset ht
            rfl
    | gone _ =>
        obtain ⟨result, hreturned⟩ := TaskStep.phase_goneTask entry.payload
        rw [hreturned] at hphase
        cases hphase
    | _ => cases hphase
  · rw [hpay] at hphase
    cases hphase

/-! ### One step -/

/-- The step ends a load of the node, and its entry gets the workspace id. -/
def State.Lands (s : State) (e : Event) (n : NodeId) (ws : WorkspaceId) : Prop :=
  ∃ l x, e = .continueLoad l ∧ s.loader.loads l = some x ∧ x.nodeId = n ∧
    x.entryWorkspace = some ws

/-- The entry of a load that has ended. -/
private theorem entry_put (m : Memory) (n : NodeId) (doc : YDoc) (ws : WorkspaceId) :
    (m.put n (ManagedDoc.loaded doc ws)).docs n = some m.nextRef ∧
      ((m.put n (ManagedDoc.loaded doc ws)).heap m.nextRef).workspaceId = ws := by
  refine ⟨Function.update_self .., ?_⟩
  show (Function.update m.heap m.nextRef (ManagedDoc.loaded doc ws) m.nextRef).workspaceId = ws
  rw [Function.update_self]
  rfl

private theorem put_of_lands (h : step lex s e = some s') (hlands : s.Lands e n ws) :
    ∃ doc, s'.mem = s.mem.put n (ManagedDoc.loaded doc ws) ∧ s'.nodes = s.nodes := by
  obtain ⟨l, ⟨m, argument, phase⟩, rfl, hload, rfl, hws⟩ := hlands
  simp only [step, State.continueLoad, hload] at h
  cases phase with
  | redisAnswered state =>
      cases state with
      | none => cases hws
      | some state =>
          obtain rfl := Option.some.inj h
          obtain rfl := Option.some.inj hws
          exact ⟨_, rfl, rfl⟩
  | dbAnswered result =>
      rcases result with _ | ⟨_ | state, found⟩
      all_goals
        obtain rfl := Option.some.inj h
        obtain rfl := Option.some.inj hws
        exact ⟨_, rfl, rfl⟩
  | _ => cases hws

/-- A managed node was managed before, with the same entry, or a load of it ends. -/
private theorem docs_or_lands (h : step lex s e = some s') {r : DocRef}
    (hr : s'.mem.docs n = some r) :
    s.mem.docs n = some r ∨ s.Lands e n (s'.mem.heap r).workspaceId := by
  cases step_mem h with
  | same hmem => exact Or.inl (hmem.docs ▸ hr)
  | edit q u _ hmem => exact Or.inl (hmem.docs ▸ hr)
  | put l x doc ws he hload hdoc hmem =>
      by_cases hn : n = x.nodeId
      · obtain ⟨ws', hws'⟩ : ∃ ws', x.entryWorkspace = some ws' := by
          obtain ⟨m, argument, phase⟩ := x
          cases phase with
          | redisAnswered state =>
              cases state with
              | none => cases hdoc
              | some state => exact ⟨_, rfl⟩
          | dbAnswered result => rcases result with _ | ⟨_ | state, found⟩ <;> exact ⟨_, rfl⟩
          | _ => cases hdoc
        have hlands : s.Lands e n ws' := ⟨l, x, he, hload, hn.symm, hws'⟩
        obtain ⟨doc', hput, -⟩ := put_of_lands h hlands
        obtain ⟨hdocs, hentry⟩ := entry_put s.mem n doc' ws'
        rw [hput, hdocs] at hr
        obtain rfl := Option.some.inj hr
        rw [hput, hentry]
        exact Or.inr hlands
      · rw [hmem] at hr
        exact Or.inl ((Function.update_of_ne hn ..).symm.trans hr)
  | remove hmem =>
      rcases hmem.docs n with hsame | hnone
      · exact Or.inl (hsame ▸ hr)
      · rw [hnone] at hr
        cases hr
  | saved t entry q save sv p _ _ _ hmem => exact Or.inl (hmem.docs ▸ hr)

/-- **A step uses no new workspace id**, unless a load ends. -/
theorem uses_of_step (hI : Inv s) (hF : FlushesMade s) (h : step lex s e = some s')
    (huses : s'.Uses n ws) : s.Uses n ws ∨ s.Lands e n ws := by
  have hentry : ∀ {r}, s'.mem.docs n = some r →
      s.Uses n (s'.mem.heap r).workspaceId ∨ s.Lands e n (s'.mem.heap r).workspaceId := by
    intro r hr
    rcases docs_or_lands h hr with hdocs | hlands
    · rw [entry_workspace_of_step h (hI.docs_lt hdocs)]
      exact Or.inl (.entry r hdocs)
    · exact Or.inr hlands
  cases huses with
  | entry r hr => exact hentry hr
  | flush t entry' r hentry' hkey' hr =>
      rcases flushed_of_step h hentry' hr with ⟨entry, htask, hkey, hr₀⟩ | hdocs
      · rw [entry_workspace_of_step h (hF htask hr₀)]
        exact Or.inl (.flush t entry r htask (hkey.symm.trans hkey') hr₀)
      · exact hentry (hkey' ▸ hdocs)
  | save i c' hc' hnode hpending =>
      rcases save_of_step h hc' with ⟨c, hc, hsame, -, hbefore⟩ | ⟨-, hcall⟩
      · have hws : c'.workspaceId = c.workspaceId := by rw [hsame]
        have hnode' : c'.nodeId = c.nodeId := by rw [hsame]
        rw [hws]
        exact Or.inl (.save i c hc (hnode'.symm.trans hnode) (hbefore hpending))
      · obtain ⟨r, hr, hws⟩ := workspace_of_called hI h hcall
        rw [hws]
        exact Or.inl (.entry r (hnode ▸ hr))
  | embed t entry' r persisted job hentry' hkey' hphase =>
      obtain ⟨entry, htask, hkey, hold | ⟨hr, hws⟩⟩ := job_of_step h hentry' hphase
      · exact Or.inl (.embed t entry r persisted job htask (hkey.symm.trans hkey') hold)
      · rw [hws]
        exact Or.inl (.flush t entry r htask (hkey.symm.trans hkey') hr)

/-- A step after which the manager knows every workspace was in the workspace. -/
private theorem inWorkspace_of_step (hK : KnowsWorkspace s) (h : step lex s e = some s')
    (hK' : KnowsWorkspace s') : e.InWorkspace s := by
  cases e with
  | continueLoad l =>
      intro x row hload hrow
      have hlanded : ∀ {ws}, x.entryWorkspace = some ws → ws = row.workspaceId := by
        intro ws hws
        obtain ⟨doc, hmem, hnodes⟩ := put_of_lands h ⟨l, x, rfl, hload, rfl, hws⟩
        obtain ⟨hdocs, hentry⟩ := entry_put s.mem x.nodeId doc ws
        rw [← hmem] at hdocs hentry
        rw [← hentry]
        exact hK' _ _ row (.entry _ hdocs) (hnodes ▸ hrow)
      refine ⟨fun hargument => ?_, fun state ws hphase => ?_⟩
      · exact hlanded (x.entryWorkspace_of_keepsArgument hargument)
      · refine hlanded ?_
        rw [Load.entryWorkspace, hphase]
  | writeNode n row =>
      intro ws huses
      simp only [step] at h
      split at h
      · obtain rfl := Option.some.inj h
        have huses' : State.Uses { s with nodes := Function.update s.nodes n (some row) } n ws := by
          cases huses with
          | entry r hr => exact .entry r hr
          | flush t entry r hentry hkey hr => exact .flush t entry r hentry hkey hr
          | save i c hc hnode hpending => exact .save i c hc hnode hpending
          | embed t entry r p job hentry hkey hphase =>
              exact .embed t entry r p job hentry hkey hphase
        have hnew : ws = row.workspaceId :=
          hK' n ws row huses' (Function.update_self n (some row) s.nodes)
        cases hrow : s.nodes n with
        | none => exact hnew.symm
        | some old => exact hnew.symm.trans (hK n ws old huses hrow)
      · cases h
  | _ => trivial

/-- The manager goes on knowing every workspace. -/
private theorem knowsWorkspace_of_step (hI : Inv s) (hF : FlushesMade s) (hK : KnowsWorkspace s)
    (h : step lex s e = some s') (hguard : e.InWorkspace s) : KnowsWorkspace s' := by
  intro n ws row huses hrow
  rcases uses_of_step hI hF h huses with hold | hlands
  · rcases workspace_of_step h hrow with ⟨row₀, hrow₀, hsame⟩ | rfl
    · rw [← hsame]
      exact hK n ws row₀ hold hrow₀
    · have hstays : row.workspaceId = ((s.nodes n).map NodeRow.workspaceId).getD ws :=
        hguard ws hold
      rw [hstays]
      cases hrow₀ : s.nodes n with
      | none => rfl
      | some old => exact hK n ws old hold hrow₀
  · obtain ⟨doc, -, hnodes⟩ := put_of_lands h hlands
    obtain ⟨l, x, rfl, hload, rfl, hws⟩ := hlands
    obtain ⟨hargument, hstate⟩ := hguard x row hload (hnodes ▸ hrow)
    rcases Load.entryWorkspace_cases hws with ⟨hkeeps, rfl⟩ | ⟨state, hphase⟩
    · exact hargument hkeeps
    · exact hstate state ws hphase

/-! ### Runs -/

/-- **The manager knows the workspace, exactly.**  In every run, what the manager
uses for a node is the workspace of its row after every step if and only if every
step is in the workspace. -/
theorem along_knowsWorkspace_iff (lex : Lexical) (nodes : NodeId → Option NodeRow)
    (es : List Event) :
    Along (step lex) (fun _ _ s' => KnowsWorkspace s') (State.init nodes) es ↔
      Along (step lex) (fun s e _ => e.InWorkspace s) (State.init nodes) es := by
  have hinit : KnowsWorkspace (State.init nodes) := by
    intro n ws row huses
    cases huses with
    | entry r hr => cases hr
    | flush t entry r hentry => cases hentry
    | save i c hc => cases hc
    | embed t entry r p job hentry => cases hentry
  constructor
  · refine along_of_invariant (I := KnowsWorkspace) ?_ hinit
    intro s e s' h hK hK'
    exact ⟨hK', inWorkspace_of_step hK h hK'⟩
  · refine along_of_invariant (I := fun s => Inv s ∧ FlushesMade s ∧ KnowsWorkspace s) ?_
      ⟨inv_init nodes, flushesMade_init nodes, hinit⟩
    rintro s e s' h ⟨hI, hF, hK⟩ hguard
    have hI' := hI.step h
    have hK' := knowsWorkspace_of_step hI hF hK h hguard
    exact ⟨⟨hI', flushesMade_of_step hI' hF h, hK'⟩, hK'⟩

/-- The node of workspace `7` is opened by a caller who names workspace `8`. -/
def openElsewhere : List Event :=
  [.getOrCreateDoc 1 8, .redisReply .ok, .continueLoad 0, .dbReply 0 true 0, .continueLoad 0]

/-- The row has no state, so the entry keeps the workspace of the caller. -/
theorem openElsewhere_unknown :
    ¬ Along (step Lexical.plain) (fun _ _ s' => KnowsWorkspace s') (State.init oneNode)
      openElsewhere := by
  intro hknows
  have hrun : (exec (step Lexical.plain) (State.init oneNode) openElsewhere).any (fun s =>
      decide (s.mem.docs 1 = some 0 ∧ (s.mem.heap 0).workspaceId = 8 ∧
        s.nodes 1 = oneNode 1)) = true := by decide +kernel
  obtain ⟨s, hs, hstate⟩ := (Option.any_eq_true _ _).mp hrun
  obtain ⟨hdocs, hentry, hrow⟩ := of_decide_eq_true hstate
  have hlast : KnowsWorkspace s := hknows.state (fun n ws row huses => by
    cases huses with
    | entry r hr => cases hr
    | flush t entry r hentry => cases hentry
    | save i c hc => cases hc
    | embed t entry r p job hentry => cases hentry) hs
  have hseven := hlast 1 _ _ (.entry 0 hdocs) hrow
  rw [hentry] at hseven
  cases hseven

end AideepWebsocket.DocManager
