import AideepWebsocket.DocManager.Invariant

/-!
# Saves and the rows they write

A `saveToDb` call updates the row of its node, then syncs the attachments, and then
resolves with the version that the update has left; its flush, and the append around
it, resolve with the same.  This module says what a step does to one such call
(`SaveMove`) and to one row (`row_cases`): between them they hold every write of
`nodes`.  `Task.After` follows a version from the row to the result of a task.
-/

namespace AideepWebsocket.DocManager

open Library

variable {lex : Lexical} {s s' : State} {e : Event} {v : ℕ}

/-- How an event can change the phase of a `saveToDb` call. -/
inductive SaveMove (s : State) (e : Event) (save : SaveId) (c : SaveCall) : SavePhase → Prop
  | stay : SaveMove s e save c c.phase
  | committed (now : ℕ) (row : NodeRow) (he : e = .updateNodeRow save .ok now)
      (hphase : c.phase = .updateNodeRow) (hrow : s.nodes c.nodeId = some row) :
      SaveMove s e save c (.syncNodeAttachments ⟨row.version + 1, now⟩)
  | synced (persisted : Persisted) (hphase : c.phase = .syncNodeAttachments persisted) :
      SaveMove s e save c (.resolved persisted)
  | rejected (committed : Bool) : SaveMove s e save c (.rejected committed)

/-- A call is new, or it goes on from where it was. -/
def SaveMoved (s : State) (e : Event) (s' : State) : Prop :=
  ∀ save c', s'.saves save = some c' → (save = s.nextSave ∧ c'.phase = .updateNodeRow) ∨
    ∃ c phase, s.saves save = some c ∧ c' = { c with phase := phase } ∧ SaveMove s e save c phase

private theorem saveMoved_of_eq (h : s'.saves = s.saves) : SaveMoved s e s' := by
  intro save c' hc'
  rw [h] at hc'
  exact Or.inr ⟨c', c'.phase, hc', rfl, .stay⟩

private theorem saveMoved_of_update {save : SaveId} {c : SaveCall} {phase : SavePhase}
    (hsave : s.saves save = some c)
    (hsaves : s'.saves = Function.update s.saves save (some { c with phase := phase }))
    (hmove : SaveMove s e save c phase) : SaveMoved s e s' := by
  intro save' c' hc'
  rw [hsaves] at hc'
  by_cases heq : save' = save
  · subst heq
    rw [Function.update_self] at hc'
    exact Or.inr ⟨c, phase, hsave, (Option.some.inj hc').symm, hmove⟩
  · rw [Function.update_of_ne heq] at hc'
    exact Or.inr ⟨c', c'.phase, hc', rfl, .stay⟩

private theorem State.FlushStep.saveMoved {s₀ : State} {t : TaskId} {x : Task} {n : NodeId}
    (h : s.FlushStep t x n s') (hsaves : s.saves = s₀.saves) (hnext : s.nextSave = s₀.nextSave) :
    SaveMoved s₀ e s' := by
  cases h with
  | save r mem c _ _ _ _ _ _ _ hphase =>
      intro save' c' hc'
      by_cases heq : save' = s.nextSave
      · subst heq
        obtain rfl : c = c' := by simpa using hc'
        exact Or.inl ⟨hnext, hphase⟩
      · have hold : s₀.saves save' = some c' := by
          rw [← hsaves]
          exact (Function.update_of_ne heq ..).symm.trans hc'
        exact Or.inr ⟨c', c'.phase, hold, rfl, .stay⟩
  | _ => exact saveMoved_of_eq hsaves

/-- **The saves**, one at a time. -/
theorem saveMoved_of_step (h : step lex s e = some s') : SaveMoved s e s' := by
  cases step_cases h with
  | schedule _ hsub => exact saveMoved_of_eq hsub.saves
  | submitAppend n ws markdown userId _ hs' =>
      subst hs'
      exact saveMoved_of_eq rfl
  | get n ws _ _ hwork => exact saveMoved_of_eq hwork.saves
  | resumeGet get c _ _ _ _ hwork => exact saveMoved_of_eq hwork.saves
  | loadMoved l x phase _ _ _ hwork => exact saveMoved_of_eq hwork.saves
  | put l x doc ws _ _ _ _ hwork => exact saveMoved_of_eq hwork.saves
  | edit n r u _ _ _ hwork => exact saveMoved_of_eq hwork.saves
  | remove _ hwork => exact saveMoved_of_eq hwork.saves
  | startFlush t entry caller _ _ _ _ _ hflush => exact hflush.saveMoved rfl rfl
  | startAppend t entry ws await _ _ _ _ _ _ hwork => exact saveMoved_of_eq hwork.saves
  | appendFailed t clientId entry await failure _ _ _ _ _ _ _ _ _ hwork =>
      exact saveMoved_of_eq hwork.saves
  | appended t clientId entry await ws markdown userId r result x s₁ _ _ _ _ _ _ _ hwork _ _ _
      hflush =>
      rcases hflush with ⟨-, rfl⟩ | ⟨-, hflush⟩
      · exact saveMoved_of_eq hwork.saves
      · exact hflush.saveMoved hwork.saves hwork.nextSave
  | continueFlush t entry mem phase _ _ hs' _ =>
      subst hs'
      exact saveMoved_of_eq rfl
  | embedded t entry r persisted job _ _ _ hwork => exact saveMoved_of_eq hwork.saves
  | returned t entry result s₁ _ _ _ _ hwork _ hsub =>
      exact saveMoved_of_eq (hsub.saves.trans hwork.saves)
  | redisSet reply n state t rest _ _ hs' =>
      subst hs'
      exact saveMoved_of_eq (by simp)
  | uncached n store _ _ hwork => exact saveMoved_of_eq hwork.saves
  | commit save c reply now row he hexecuted hsave hphase hrow _ =>
      subst he
      simp only [step, State.updateNodeRow, hsave, hphase, hexecuted, if_true, hrow] at h
      split at h
      · next hok =>
          cases h
          exact saveMoved_of_update hsave rfl (.committed now row (by rw [hok]) hphase hrow)
      · cases h
        exact saveMoved_of_update hsave (by simp) (.rejected true)
  | saveMoved save c hsave hcase =>
      rcases hcase with ⟨-, failure, rfl⟩ | ⟨persisted, hphase, rfl | rfl⟩
      · exact saveMoved_of_update hsave (by simp) (.rejected false)
      · exact saveMoved_of_update hsave (by simp) (.synced persisted hphase)
      · exact saveMoved_of_update hsave (by simp) (.rejected true)
  | otherWriter nodes hs' _ _ =>
      subst hs'
      exact saveMoved_of_eq rfl
  | restart he hs' =>
      subst hs'
      intro save c' hc'
      obtain ⟨c, hc, rfl⟩ := Option.map_eq_some_iff.mp hc'
      cases hpending : c.phase.pending with
      | true => exact Or.inr ⟨c, _, hc, if_pos rfl, .rejected _⟩
      | false => exact Or.inr ⟨c, c.phase, hc, if_neg Bool.false_ne_true, .stay⟩

/-! ### The rows -/

/-- Nothing but the transaction of a save and the other writers changes the table. -/
private theorem nodes_eq_of_step (h : step lex s e = some s')
    (hwrite : ∀ n row, e ≠ .writeNode n row)
    (hdelete : ∀ n, e ≠ .deleteNode n)
    (hupdate : ∀ save reply now, e ≠ .updateNodeRow save reply now) : s'.nodes = s.nodes := by
  cases e with
  | writeNode n row => exact absurd rfl (hwrite n row)
  | deleteNode n => exact absurd rfl (hdelete n)
  | updateNodeRow save reply now => exact absurd rfl (hupdate save reply now)
  | getOrCreateDoc n ws =>
      cases h
      exact (State.getOrCreateDoc_frame s n ws).2.2.2.2.1
  | startTask t =>
      obtain ⟨entry, -, -, -, hcase⟩ := State.startTask_step s h
      rcases hcase with ⟨-, hflush⟩ | ⟨ws, markdown, userId, -, rfl⟩
      · exact hflush.stores.1
      · exact (State.getOrCreateDoc_frame s entry.key ws).2.2.2.2.1
  | resumeAppend t clientId =>
      obtain ⟨entry, await, ws, markdown, userId, -, -, -, hcase⟩ := State.resumeAppend_step s h
      rcases hcase with ⟨failure, -, rfl⟩ | ⟨r, result, mem, -, -, -, hflush⟩
      · simp
      · rcases hflush with ⟨-, rfl⟩ | ⟨-, hflush⟩
        · simp
        · exact hflush.stores.1.trans (by simp)
  | resumeTask t =>
      obtain ⟨entry, result, s₁, -, -, -, -, -, -, -, hnodes, -, -, hsub⟩ :=
        State.resumeTask_step s h
      exact hsub.nodes.trans hnodes
  | redisReply reply =>
      obtain ⟨cmd, rest, -, ⟨l, -, ⟨n, ws, -, rfl⟩ | rfl⟩ | ⟨n, state, t, -, rfl⟩ | ⟨n, -, rfl⟩⟩ :=
        State.redisReply_cases s h
      · rfl
      · rfl
      · simp
      · rfl
  | cleanupNode n =>
      cases h
      rfl
  | redisExpire n =>
      cases h
      rfl
  | restart =>
      cases h
      rfl
  | _ => exact (stores_of_local h trivial).1

/-- In this step a transaction of `n` is executed, and `row` is what it finds. -/
structure RowUpdated (s : State) (e : Event) (s' : State) (n : NodeId) (save : SaveId)
    (reply : Reply) (now : ℕ) (c : SaveCall) (row : NodeRow) : Prop where
  event : e = .updateNodeRow save reply now
  executed : reply.executed = true
  save : s.saves save = some c
  phase : c.phase = .updateNodeRow
  node : c.nodeId = n
  before : s.nodes n = some row
  after : s'.nodes n = some (State.writtenRow row c now)

private theorem row_updateNodeRow {save : SaveId} {reply : Reply} {now : ℕ}
    (h : s.updateNodeRow save reply now = some s') (n : NodeId) : s'.nodes n = s.nodes n ∨
      ∃ c row, RowUpdated s (.updateNodeRow save reply now) s' n save reply now c row := by
  obtain ⟨c, hsave, hphase, ⟨-, rfl⟩ | ⟨-, -, rfl⟩ | ⟨row, hexecuted, hrow, hcase⟩⟩ :=
    State.updateNodeRow_cases s h
  · exact Or.inl (by simp)
  · exact Or.inl (by simp)
  · have hnodes : s'.nodes = Function.update s.nodes c.nodeId
        (some (State.writtenRow row c now)) := by
      rcases hcase with ⟨-, rfl⟩ | ⟨-, rfl⟩
      · rfl
      · simp
    by_cases hn : n = c.nodeId
    · subst hn
      refine Or.inr ⟨c, row, rfl, hexecuted, hsave, hphase, rfl, hrow, ?_⟩
      rw [hnodes, Function.update_self]
    · rw [hnodes, Function.update_of_ne hn]
      exact Or.inl rfl

/-- **A row** after a step is the row before, or a save or another writer has written it. -/
theorem row_cases (h : step lex s e = some s') (n : NodeId) :
    s'.nodes n = s.nodes n ∨ (∃ row, e = .writeNode n row ∧ s'.nodes n = some row) ∨
      (e = .deleteNode n ∧ s'.nodes n = none) ∨
      ∃ save reply now c row, RowUpdated s e s' n save reply now c row := by
  cases e with
  | writeNode m row =>
      simp only [step] at h
      split at h <;> cases h
      by_cases hn : n = m
      · subst hn
        exact Or.inr (Or.inl ⟨row, rfl, Function.update_self ..⟩)
      · exact Or.inl (Function.update_of_ne hn ..)
  | deleteNode m =>
      cases h
      by_cases hn : n = m
      · subst hn
        exact Or.inr (Or.inr (Or.inl ⟨rfl, Function.update_self ..⟩))
      · exact Or.inl (Function.update_of_ne hn ..)
  | updateNodeRow save reply now =>
      rcases row_updateNodeRow h n with hsame | ⟨c, row, hrow⟩
      · exact Or.inl hsame
      · exact Or.inr (Or.inr (Or.inr ⟨save, reply, now, c, row, hrow⟩))
  | _ =>
      refine Or.inl (congrFun (nodes_eq_of_step h ?_ ?_ ?_) n)
      · exact fun _ _ => DocManager.Event.noConfusion
      · exact fun _ => DocManager.Event.noConfusion
      · exact fun _ _ _ => DocManager.Event.noConfusion

/-! ### The version of a task -/

/-- The row that the call has left, if it has left one, has the version after `v`. -/
def SavePhase.After (v : ℕ) : SavePhase → Prop
  | .syncNodeAttachments persisted | .resolved persisted => persisted.version = v + 1
  | _ => True

/-- The task resolves, if it does, with the version after `v`, which is the one that
its own save has left. -/
def Task.After (s : State) (v : ℕ) (x : Task) : Prop :=
  match x.phase with
  | .refreshing .. => False
  | .saving _ save _ _ _ => ∀ c, s.saves save = some c → c.phase.After v
  | .embedding _ persisted _ | .settled (.ok persisted) | .returned (.ok persisted) =>
      persisted.version = v + 1
  | _ => True

/-- A call that has resolved has left its row behind. -/
private theorem version_of_after {save : SaveId} {persisted : Persisted}
    (hafter : ∀ c, s.saves save = some c → c.phase.After v)
    (hsave : (s.saves save).map SaveCall.phase = some (.resolved persisted)) :
    persisted.version = v + 1 := by
  obtain ⟨c, hc, hphase⟩ := Option.map_eq_some_iff.mp hsave
  have hc' := hafter c hc
  rw [hphase] at hc'
  exact hc'

/-- A call of the task `i` goes on, and a row that it leaves is the next. -/
private theorem saveAfter_of_step (h : step lex s e = some s') {i : TaskId} {save : SaveId}
    (hafter : ∀ c, s.saves save = some c → c.phase.After v)
    (htask : ∀ c, s.saves save = some c → c.task = i)
    (hrow : ∀ save now c row, e = .updateNodeRow save .ok now → s.saves save = some c →
      c.task = i → s.nodes c.nodeId = some row → row.version = v) {c' : SaveCall}
    (hc' : s'.saves save = some c') : c'.phase.After v := by
  rcases saveMoved_of_step h save c' hc' with ⟨-, hnew⟩ | ⟨c, phase, hc, rfl, hmove⟩
  · rw [hnew]
    trivial
  · have hold := hafter c hc
    cases hmove with
    | stay => exact hold
    | committed now row he hphase hnode =>
        have hversion : row.version = v := hrow save now c row he hc (htask c hc) hnode
        show row.version + 1 = v + 1
        rw [hversion]
    | synced persisted hphase =>
        rw [hphase] at hold
        exact hold
    | rejected committed => trivial

/-- **The version of a task**, one step at a time: the transaction of its save finds
the row at `v`, and its flush does not skip. -/
theorem Task.After.step (hI : Inv s) (h : DocManager.step lex s e = some s') {i : TaskId}
    {entry : ChainTask NodeId Task} {x : Task} (hafter : entry.payload.After s v)
    (hi : s.queue.task i = some entry) (hstep : TaskStep s e s' i entry x)
    (hskip : (e = .startTask i ∨ ∃ clientId, e = .resumeAppend i clientId) →
      ∀ r persisted redis, x.phase ≠ .refreshing r persisted redis)
    (hrow : ∀ save now c row, e = .updateNodeRow save .ok now → s.saves save = some c →
      c.task = i → entry.payload.stage = .running → s.nodes c.nodeId = some row →
        row.version = v) : x.After s' v := by
  -- what the task knew of its save carries over to the state after
  have hsaving : ∀ {r save sv redis failure},
      entry.payload.phase = .saving r save sv redis failure →
      (∀ c, s.saves save = some c → c.phase.After v) ∧
        ∀ c', s'.saves save = some c' → c'.phase.After v := by
    intro r save sv redis failure hphase
    have hold : ∀ c, s.saves save = some c → c.phase.After v := by
      simpa only [Task.After, hphase] using hafter
    obtain ⟨c₀, hc₀, htask, -⟩ := hI.saving hi hphase
    have hrunning : entry.payload.stage = .running := by rw [Task.stage, hphase]; rfl
    refine ⟨hold, fun c' hc' => saveAfter_of_step h hold (fun c hc => ?_)
      (fun save now c row he hc ht => hrow save now c row he hc ht hrunning) hc'⟩
    rw [hc₀] at hc
    exact Option.some.inj hc ▸ htask
  cases hstep with
  | stay =>
      unfold Task.After at hafter ⊢
      split at hafter
      · exact hafter
      · next r save sv redis failure hphase => exact (hsaving hphase).2
      · exact hafter
      · exact hafter
      · exact hafter
      · trivial
  | load await _ _ => trivial
  | fail x failure _ _ hphase' =>
      simp only [Task.After, hphase']
  | skip x r persisted _ he _ hphase' => exact absurd hphase' (hskip he r persisted none)
  | save x c _ _ _ hphase' hsave =>
      simp only [Task.After, hphase']
      intro c' hc'
      rcases saveMoved_of_step h _ c' hc' with ⟨-, hnew⟩ | ⟨c₀, _, hc₀, -, -⟩
      · rw [hnew]
        trivial
      · exact absurd (hI.save_lt hc₀) (lt_irrefl _)
  | refreshReplied r persisted ok hphase => simp only [Task.After, hphase] at hafter
  | saveReplied r save sv ok failure failure' hphase _ => exact (hsaving hphase).2
  | saveRejected r save sv redis first failure hphase => exact (hsaving hphase).2
  | refreshed r persisted hphase => simp only [Task.After, hphase] at hafter
  | saved r save sv persisted phase hphase hsave hphase' _ =>
      have hversion := version_of_after (hsaving hphase).1 hsave
      rcases hphase' with rfl | ⟨job, rfl⟩
      · exact hversion
      · exact hversion
  | embedded r persisted job hphase =>
      simp only [Task.After, hphase] at hafter
      exact hafter
  | returned result hphase =>
      simp only [Task.After, hphase] at hafter
      cases result with
      | ok persisted => exact hafter
      | error failure => trivial
  | gone _ =>
      unfold State.goneTask
      split
      · next result hphase =>
          simp only [Task.After, hphase] at hafter ⊢
          cases result with
          | ok persisted => exact hafter
          | error failure => trivial
      · next result hphase =>
          simp only [Task.After, hphase] at hafter
          cases result with
          | ok persisted => exact hafter
          | error failure => trivial
      · trivial

end AideepWebsocket.DocManager
