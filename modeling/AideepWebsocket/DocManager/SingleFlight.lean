import AideepWebsocket.DocManager.Loading

/-!
# One live document per node

`getOrCreateDoc` puts three kinds of callers together: one that finds the
document in `docs`, one that starts a load, and those that come while the load is
under way.  What they share is followed here through whole runs.

* `State.HasDoc` — the documents of a node, managed or being loaded; by `LoadInv`
  there is at most one.
* `Event.asks`, `Event.resumes` — the points at which a caller comes and goes.
  In between it awaits one load, whose outcome does not change
  (`awaiting_of_step`, `outcome_of_step`).
* `FlightInv` — an entry of `loading` is there exactly as long as the caller that
  started the load is suspended, and the managed document of a node is the one
  that a load of this node put there.
-/

namespace AideepWebsocket.DocManager

open Library

variable {lex : Lexical} {s s' : State} {e : Event}

/-! ### Callers -/

/-- The call of `getOrCreateDoc` that an event makes: who calls, and for which
node. -/
def Event.asks (e : Event) (s : State) : Option ((ℕ ⊕ TaskId) × NodeId) :=
  match e with
  | .getOrCreateDoc n _ => some (.inl s.loader.nextGet, n)
  | .startTask t =>
      (s.queue.task t).bind fun entry =>
        match entry.payload.kind with
        | .appendMarkdown _ _ _ => some (.inr t, entry.key)
        | .flushDoc _ => none
  | _ => none

/-- The caller that an event lets go on. -/
def Event.resumes : Event → Option (ℕ ⊕ TaskId)
  | .resumeGet get => some (.inl get)
  | .resumeAppend t _ => some (.inr t)
  | _ => none

/-- The call has been made, whether or not the caller has resumed since. -/
def State.called (s : State) : ℕ ⊕ TaskId → Prop
  | .inl get => get < s.loader.nextGet
  | .inr t => ∃ entry, s.queue.task t = some entry ∧ entry.payload.phase ≠ .queued

/-- What the promise of a load has settled with. -/
def State.outcome (s : State) (l : LoadId) : Option (Except Failure DocRef) :=
  s.awaited (.load l false)

/-- What a suspended caller receives when it resumes now. -/
def State.receives (s : State) (a : ℕ ⊕ TaskId) : Option (Except Failure DocRef) :=
  (s.awaiting a).bind fun c => s.awaited c.await

theorem outcome_eq (s : State) (l : LoadId) :
    s.outcome l = match (s.loader.loads l).map Load.phase with
      | some (.resolved r) => some (.ok r)
      | some (.rejected failure) => some (.error failure)
      | _ => none := rfl

/-- The calls outside the queue: numbers are not reused, and a call is pending
until it is resumed.  No load is forgotten. -/
private structure GetsStep (s : State) (e : Event) (s' : State) : Prop where
  next_le : s.loader.nextGet ≤ s'.loader.nextGet
  keeps : ∀ {g c}, g < s.loader.nextGet → s.loader.gets g = some c →
    s'.loader.gets g = some c ∨ e = .restart ∨
      e = .resumeGet g ∧ s.awaited c.await ≠ none
  old : ∀ {g c}, g < s.loader.nextGet → s'.loader.gets g = some c → s.loader.gets g = some c
  new : ∀ {g c}, s'.loader.gets g = some c → s.loader.gets g = some c ∨ g < s'.loader.nextGet
  loads : e = .restart ∨ ∀ {l x}, s.loader.loads l = some x → ∃ x', s'.loader.loads l = some x'
  loading : ∀ {n l}, s'.loader.loading n = some l → s.loader.loading n = some l ∨
    s.mem.docs n = none ∧ s.loader.loading n = none ∧ l = s.loader.nextLoad ∧
      ∃ a, e.asks s = some (a, n)

/-- The calls outside the queue stay as they are, and the loads are kept. -/
private structure Loader.SameGets (ld ld' : Loader) : Prop where
  gets : ld'.gets = ld.gets
  next : ld'.nextGet = ld.nextGet
  loads : ∀ {l x}, ld.loads l = some x → ∃ x', ld'.loads l = some x'

private theorem sameGets_setPhase (ld : Loader) (l : LoadId) (phase : LoadPhase) :
    ld.SameGets (ld.setPhase l phase) :=
  ⟨rfl, rfl, fun hx => (setPhase_keeps phase hx).imp fun _ => And.left⟩

private theorem sameGets_getOrCreateDoc (s : State) (n : NodeId) (ws : WorkspaceId) :
    s.loader.SameGets (s.getOrCreateDoc n ws).1.loader := by
  rcases getOrCreateDoc_cases s n ws with ⟨r, -, -, hld⟩ | ⟨l, -, -, -, hld⟩ | ⟨-, -, -, hld⟩
  · exact hld ▸ ⟨rfl, rfl, fun hx => ⟨_, hx⟩⟩
  · exact hld ▸ ⟨rfl, rfl, fun hx => ⟨_, hx⟩⟩
  · rw [hld]
    refine ⟨rfl, rfl, fun {l x} hx => ?_⟩
    by_cases hl : l = s.loader.nextLoad
    · exact ⟨_, by rw [hl]; exact Function.update_self ..⟩
    · exact ⟨x, (Function.update_of_ne hl ..).trans hx⟩

private theorem sameGets_finishAwait (s : State) (n : NodeId) (await : Await) :
    s.loader.SameGets (s.finishAwait n await).loader := by
  unfold State.finishAwait
  split <;> exact ⟨rfl, rfl, fun hx => ⟨_, hx⟩⟩

private theorem loading_finishAwait {n m : NodeId} {await : Await} {l : LoadId}
    (h : (s.finishAwait n await).loader.loading m = some l) : s.loader.loading m = some l := by
  rcases finishAwait_loading s n await m with hm | ⟨-, -, hm⟩
  · exact hm ▸ h
  · rw [hm] at h
    cases h

/-- The entry of `loading` that a call makes. -/
private theorem loading_getOrCreateDoc {n m : NodeId} {ws : WorkspaceId} {l : LoadId}
    (h : (s.getOrCreateDoc n ws).1.loader.loading m = some l) :
    s.loader.loading m = some l ∨
      s.mem.docs m = none ∧ s.loader.loading m = none ∧ l = s.loader.nextLoad ∧ m = n := by
  rcases getOrCreateDoc_cases s n ws with ⟨r, -, -, hld⟩ | ⟨i, -, -, -, hld⟩ |
    ⟨hdocs, hfree, -, hld⟩
  · exact Or.inl (by rw [← hld, h])
  · exact Or.inl (by rw [← hld, h])
  · by_cases hm : m = n
    · subst hm
      rw [hld] at h
      have hself : Function.update s.loader.loading m (some s.loader.nextLoad) m = some l := h
      rw [Function.update_self] at hself
      cases hself
      exact Or.inr ⟨hdocs, hfree, rfl, rfl⟩
    · rw [hld] at h
      exact Or.inl ((Function.update_of_ne hm ..).symm.trans h)

private theorem gets_of_step (h : step lex s e = some s') : GetsStep s e s' := by
  have hof : ∀ {ld : Loader}, s'.loader = ld → s.loader.SameGets ld →
      (∀ {n l}, ld.loading n = some l → s.loader.loading n = some l ∨
        s.mem.docs n = none ∧ s.loader.loading n = none ∧ l = s.loader.nextLoad ∧
          ∃ a, e.asks s = some (a, n)) → GetsStep s e s' := by
    rintro ld rfl hld hloading
    exact ⟨hld.next.ge, fun _ hg => Or.inl (by rw [hld.gets, hg]),
      fun _ hg => by rw [← hld.gets, hg], fun hg => Or.inl (by rw [← hld.gets, hg]),
      Or.inr hld.loads, hloading⟩
  have hsame : ∀ {ld : Loader}, s'.loader = ld → ld = s.loader → GetsStep s e s' := by
    rintro ld hld rfl
    exact hof hld ⟨rfl, rfl, fun hx => ⟨_, hx⟩⟩ Or.inl
  cases step_cases h with
  | schedule hmem hsub => exact hsame hsub.loader rfl
  | submitAppend n ws markdown userId _ hs' => exact hsame (by rw [hs']; rfl) rfl
  | get n ws he hmem hwork hloader =>
      obtain ⟨hgets, hnext, hloads⟩ := sameGets_getOrCreateDoc s n ws
      have hgets' : s'.loader.gets = Function.update s.loader.gets s.loader.nextGet
          (some ⟨n, (s.getOrCreateDoc n ws).2⟩) := by
        rw [hloader, ← hgets, ← hnext]
        rfl
      have hnext' : s'.loader.nextGet = s.loader.nextGet + 1 := by
        rw [hloader, ← hnext]
        rfl
      refine ⟨by omega, fun {g c} hlt hg => ?_, fun {g c} hlt hg => ?_, fun {g c} hg => ?_,
        Or.inr fun hx => by rw [hloader]; exact hloads hx, fun {m l} hm => ?_⟩
      · exact Or.inl (by rw [hgets', Function.update_of_ne hlt.ne, hg])
      · rw [hgets', Function.update_of_ne hlt.ne] at hg
        exact hg
      · by_cases hne : g = s.loader.nextGet
        · exact Or.inr (by omega)
        · rw [hgets', Function.update_of_ne hne] at hg
          exact Or.inl hg
      · rw [hloader] at hm
        rcases loading_getOrCreateDoc hm with hm | ⟨hdocs, hfree, hl, rfl⟩
        · exact Or.inl hm
        · exact Or.inr ⟨hdocs, hfree, hl, _, by rw [he]; rfl⟩
  | resumeGet get c he hget hawaited hmem hwork hloader =>
      obtain ⟨hgets, hnext, hloads⟩ := sameGets_finishAwait s c.nodeId c.await
      have hgets' : s'.loader.gets = Function.update s.loader.gets get none := by
        rw [hloader, ← hgets]
        rfl
      have hold : ∀ {g c'}, s'.loader.gets g = some c' → s.loader.gets g = some c' := by
        intro g c' hg
        by_cases hne : g = get
        · rw [hgets', hne, Function.update_self] at hg
          cases hg
        · rw [hgets', Function.update_of_ne hne] at hg
          exact hg
      refine ⟨by rw [hloader, ← hnext]; rfl, fun {g c'} _ hg => ?_, fun _ hg => hold hg,
        fun hg => Or.inl (hold hg), Or.inr fun hx => by rw [hloader]; exact hloads hx,
        fun hm => Or.inl (loading_finishAwait (by rw [hloader] at hm; exact hm))⟩
      by_cases hne : g = get
      · subst hne
        rw [hget] at hg
        cases hg
        exact Or.inr (Or.inr ⟨he, hawaited⟩)
      · exact Or.inl (by rw [hgets', Function.update_of_ne hne, hg])
  | loadMoved l x phase _ _ _ _ hloader => exact hof hloader (sameGets_setPhase ..) Or.inl
  | put l x doc ws _ _ _ _ _ hloader => exact hof hloader (sameGets_setPhase ..) Or.inl
  | edit n r u _ _ _ _ hloader => exact hsame hloader rfl
  | remove _ _ hloader => exact hsame hloader rfl
  | startFlush t entry caller _ _ _ _ _ hflush => exact hsame hflush.stores.2.2 rfl
  | startAppend t entry ws await he htask _ _ _ _ hwork hloader =>
      refine hof hloader (sameGets_getOrCreateDoc s entry.key ws) fun {m l} hm => ?_
      rcases loading_getOrCreateDoc hm with hm | ⟨hdocs, hfree, hl, rfl⟩
      · exact Or.inl hm
      · refine Or.inr ⟨hdocs, hfree, hl, .inr t, ?_⟩
        obtain ⟨entry₁, htask₁, -, -, ⟨-, hflush⟩ | ⟨ws', markdown, userId, hkind, -⟩⟩ :=
          State.startTask_step s (by rw [he] at h; exact h)
        · rw [hflush.stores.2.2] at hloader
          rw [← hloader, hfree] at hm
          cases hm
        · rw [htask] at htask₁
          cases htask₁
          simp [Event.asks, he, htask, hkind]
  | appendFailed t clientId entry await failure _ _ _ ws markdown userId _ _ _ _ hloader =>
      exact hof hloader (sameGets_finishAwait s entry.key await)
        fun hm => Or.inl (loading_finishAwait hm)
  | appended t clientId entry await ws markdown userId r result x s₁ _ _ _ _ _ _ _ _ hloader
      _ _ hflush _ =>
      have hloader' : s'.loader = s₁.loader := by
        rcases hflush with ⟨-, rfl⟩ | ⟨-, hflush⟩
        · rfl
        · exact hflush.stores.2.2
      exact hof (hloader'.trans hloader) (sameGets_finishAwait s entry.key await)
        fun hm => Or.inl (loading_finishAwait hm)
  | continueFlush t entry mem phase _ _ hs' _ => exact hsame (by rw [hs']; rfl) rfl
  | embedded t entry r persisted job _ _ _ _ hloader => exact hsame hloader rfl
  | returned t entry result s₁ _ _ _ _ _ hloader hsub => exact hsame (hsub.loader.trans hloader) rfl
  | redisSet reply n state t rest _ _ hs' => exact hsame (by simp [hs']) rfl
  | uncached n store _ _ _ hloader => exact hsame hloader rfl
  | commit save c reply now row _ _ _ _ _ hs' =>
      rcases hs' with rfl | rfl
      · exact hsame rfl rfl
      · exact hsame (by simp) rfl
  | saveMoved save c _ hcase =>
      rcases hcase with ⟨-, failure, rfl⟩ | ⟨persisted, -, rfl | rfl⟩
      · exact hsame (by simp) rfl
      · exact hsame rfl rfl
      · exact hsame (by simp) rfl
  | otherWriter nodes hs' _ => exact hsame (by rw [hs']) rfl
  | restart he hs' =>
      subst hs'
      exact ⟨le_rfl, fun _ _ => Or.inr (Or.inl he), fun _ hg => (by cases hg),
        fun hg => (by cases hg), Or.inl he, fun hm => (by cases hm)⟩

/-- The append that a task carries out awaits its document until the task
resumes. -/
private theorem loadingDoc_of_step (h : step lex s e = some s') {t : TaskId}
    {entry : ChainTask NodeId Task} {await : Await} (htask : s.queue.task t = some entry)
    (hphase : entry.payload.phase = .loadingDoc await) :
    (∃ entry', s'.queue.task t = some entry' ∧ entry'.key = entry.key ∧
        entry'.payload.phase = .loadingDoc await) ∨ e = .restart ∨
      (∃ clientId, e = .resumeAppend t clientId) ∧ s.awaited await ≠ none := by
  have hstart : e ≠ .startTask t := by
    rintro rfl
    simp [step, State.startTask, htask, hphase] at h
  have hresume : ∀ clientId, e = .resumeAppend t clientId → s.awaited await ≠ none := by
    rintro clientId rfl
    obtain ⟨entry₁, await₁, ws, markdown, userId, htask₁, hphase₁, -, hcase⟩ :=
      State.resumeAppend_step s h
    rw [htask] at htask₁
    cases htask₁
    rw [hphase] at hphase₁
    cases hphase₁
    rcases hcase with ⟨failure, hfailed | ⟨r, hr, -⟩, -⟩ | ⟨r, result, mem, hr, -⟩
    · simp [hfailed]
    · simp [hr]
    · simp [hr]
  have hcontinue : e ≠ .continueFlush t := by
    rintro rfl
    simp [step, State.continueFlush, htask, hphase] at h
  obtain ⟨entry', hentry', hkey, hstep⟩ := step_task h htask
  have hdone : (e = .startTask t ∨ ∃ clientId, e = .resumeAppend t clientId) →
      (∃ clientId, e = .resumeAppend t clientId) ∧ s.awaited await ≠ none := by
    rintro (he | ⟨clientId, he⟩)
    · exact absurd he hstart
    · exact ⟨⟨clientId, he⟩, hresume clientId he⟩
  generalize hx : entry'.payload = x at hstep
  cases hstep with
  | stay => exact Or.inl ⟨entry', hentry', hkey, by rw [hx, hphase]⟩
  | load await' he _ => exact absurd he hstart
  | fail x failure _ _ _ _ _ he =>
      rcases he with he | he | he
      · exact absurd he hstart
      · exact Or.inr (Or.inr (hdone (Or.inr he)))
      · exact absurd he hcontinue
  | skip x r persisted _ he _ _ _ _ _ _ => exact Or.inr (Or.inr (hdone he))
  | save x c _ he _ _ _ _ _ _ _ _ _ => exact Or.inr (Or.inr (hdone he))
  | gone he => exact Or.inr (Or.inl he)
  | refreshReplied r persisted ok hphase' => rw [hphase] at hphase'; cases hphase'
  | saveReplied r save sv ok failure failure' hphase' _ => rw [hphase] at hphase'; cases hphase'
  | saveRejected r save sv redis first failure hphase' => rw [hphase] at hphase'; cases hphase'
  | refreshed r persisted hphase' => rw [hphase] at hphase'; cases hphase'
  | saved r save sv persisted phase hphase' _ _ _ => rw [hphase] at hphase'; cases hphase'
  | embedded r persisted job hphase' => rw [hphase] at hphase'; cases hphase'
  | returned result hphase' => rw [hphase] at hphase'; cases hphase'

/-- A task that has started and awaits a document after a step awaited it before. -/
private theorem loadingDoc_old (h : step lex s e = some s') {t : TaskId}
    {entry entry' : ChainTask NodeId Task} {await : Await}
    (htask : s.queue.task t = some entry) (hstarted : entry.payload.phase ≠ .queued)
    (htask' : s'.queue.task t = some entry')
    (hphase' : entry'.payload.phase = .loadingDoc await) :
    entry'.key = entry.key ∧ entry.payload.phase = .loadingDoc await := by
  obtain ⟨entry₁, hentry₁, hkey, hstep⟩ := step_task h htask
  rw [htask'] at hentry₁
  cases hentry₁
  refine ⟨hkey, ?_⟩
  generalize entry'.payload = x at hstep hphase'
  cases hstep with
  | stay => exact hphase'
  | load await' _ hqueued => exact absurd hqueued hstarted
  | fail _ _ _ _ hphase _ _ _ => rw [hphase] at hphase'; cases hphase'
  | skip _ _ _ _ _ _ hphase _ _ _ _ => rw [hphase] at hphase'; cases hphase'
  | save _ _ _ _ _ hphase _ _ _ _ _ _ _ => rw [hphase] at hphase'; cases hphase'
  | saved _ _ _ _ phase _ _ hphase _ =>
      rcases hphase with rfl | ⟨job, rfl⟩ <;> cases hphase'
  | gone _ =>
      have hstage := State.stage_goneTask entry.payload
      rw [Task.stage, hphase'] at hstage
      cases hstage
  | refreshReplied _ _ _ _ => cases hphase'
  | saveReplied _ _ _ _ _ _ _ _ => cases hphase'
  | saveRejected _ _ _ _ _ _ _ => cases hphase'
  | refreshed _ _ _ => cases hphase'
  | embedded _ _ _ _ => cases hphase'
  | returned _ _ => cases hphase'

/-- **A suspended caller** stays suspended until it resumes, and it resumes with
the value of what it awaits. -/
theorem awaiting_of_step (h : step lex s e = some s') {a : ℕ ⊕ TaskId} {c : GetCall}
    (hcalled : s.called a) (ha : s.awaiting a = some c) :
    s'.awaiting a = some c ∨ e = .restart ∨ e.resumes = some a ∧ s.awaited c.await ≠ none := by
  cases a with
  | inl get =>
      rcases (gets_of_step h).keeps hcalled ha with hkeep | he | ⟨he, hawaited⟩
      · exact Or.inl hkeep
      · exact Or.inr (Or.inl he)
      · exact Or.inr (Or.inr ⟨by rw [he]; rfl, hawaited⟩)
  | inr t =>
      obtain ⟨entry, hentry, hphase, hkey⟩ := awaiting_task ha
      rcases loadingDoc_of_step h hentry hphase with ⟨entry', hentry', hkey', hphase'⟩ | he |
        ⟨⟨clientId, he⟩, hawaited⟩
      · exact Or.inl (by rw [awaiting_of_task hentry' hphase', hkey', hkey])
      · exact Or.inr (Or.inl he)
      · exact Or.inr (Or.inr ⟨by rw [he]; rfl, hawaited⟩)

/-- A call is made once: a caller that has called awaits nothing new. -/
theorem awaiting_old (h : step lex s e = some s') {a : ℕ ⊕ TaskId} {c : GetCall}
    (hcalled : s.called a) (ha : s'.awaiting a = some c) : s.awaiting a = some c := by
  cases a with
  | inl get => exact (gets_of_step h).old hcalled ha
  | inr t =>
      obtain ⟨entry, hentry, hstarted⟩ := hcalled
      obtain ⟨entry', hentry', hphase', hkey'⟩ := awaiting_task ha
      obtain ⟨hkey, hphase⟩ := loadingDoc_old h hentry hstarted hentry' hphase'
      rw [awaiting_of_task hentry hphase, ← hkey, hkey']

theorem called_of_step (h : step lex s e = some s') {a : ℕ ⊕ TaskId} (hcalled : s.called a) :
    s'.called a := by
  cases a with
  | inl get => exact Nat.lt_of_lt_of_le hcalled (gets_of_step h).next_le
  | inr t =>
      obtain ⟨entry, hentry, hstarted⟩ := hcalled
      obtain ⟨entry', hentry', -, hstep⟩ := step_task h hentry
      refine ⟨entry', hentry', ?_⟩
      generalize entry'.payload = x at hstep
      cases hstep with
      | stay => exact hstarted
      | fail _ _ _ _ hphase _ _ _ => simp [hphase]
      | skip _ _ _ _ _ _ hphase _ _ _ _ => simp [hphase]
      | save _ _ _ _ _ hphase _ _ _ _ _ _ _ => simp [hphase]
      | saved _ _ _ _ phase _ _ hphase _ => rcases hphase with rfl | ⟨job, rfl⟩ <;> simp
      | gone _ =>
          intro hqueued
          have hstage := State.stage_goneTask entry.payload
          rw [Task.stage, hqueued] at hstage
          cases hstage
      | _ => simp

/-- What a caller awaits after its call is what `getOrCreateDoc` answered. -/
theorem awaiting_of_asks (h : step lex s e = some s') {a : ℕ ⊕ TaskId} {n : NodeId}
    (he : e.asks s = some (a, n)) :
    ∃ ws, s'.awaiting a = some ⟨n, (s.getOrCreateDoc n ws).2⟩ ∧
      (s.getOrCreateDoc n ws).1.loader.SameLoads s'.loader ∧ s'.called a := by
  cases e with
  | getOrCreateDoc m ws =>
      cases he
      cases h
      have hnext := (sameGets_getOrCreateDoc s n ws).next
      refine ⟨ws, ?_, ⟨rfl, rfl, rfl⟩, ?_⟩
      · show Function.update (s.getOrCreateDoc n ws).1.loader.gets
          (s.getOrCreateDoc n ws).1.loader.nextGet
          (some ⟨n, (s.getOrCreateDoc n ws).2⟩) s.loader.nextGet = _
        rw [hnext, Function.update_self]
      · show s.loader.nextGet < (s.getOrCreateDoc n ws).1.loader.nextGet + 1
        omega
  | startTask t =>
      obtain ⟨entry, htask, he⟩ := Option.bind_eq_some_iff.mp he
      obtain ⟨entry₁, htask₁, hphase, hready, hcase⟩ := State.startTask_step s h
      rw [htask] at htask₁
      cases htask₁
      rcases hcase with ⟨⟨caller, hkind⟩, -⟩ | ⟨ws, markdown, userId, hkind, rfl⟩
      · simp [hkind] at he
      · obtain ⟨rfl, rfl⟩ : a = .inr t ∧ n = entry.key := by
          simp only [hkind, Option.some.injEq, Prod.mk.injEq] at he
          exact ⟨he.1.symm, he.2.symm⟩
        have hqueue := (State.getOrCreateDoc_frame s entry.key ws).2.1
        have htask' : ((s.getOrCreateDoc entry.key ws).1.setTask t { entry.payload with
            phase := .loadingDoc (s.getOrCreateDoc entry.key ws).2 }).queue.task t =
            some { entry with payload := { entry.payload with
              phase := .loadingDoc (s.getOrCreateDoc entry.key ws).2 } } := by
          show ((s.getOrCreateDoc entry.key ws).1.queue.advance t _).task t = _
          rw [hqueue]
          exact PromiseChain.advance_task_self htask
            ⟨by simp [Phase.stage], by simp [Task.stage, hphase, Phase.stage], fun _ => hready⟩
        have hawait := awaiting_of_task htask' rfl
        exact ⟨ws, hawait, ⟨rfl, rfl, rfl⟩, _, htask', by simp⟩
  | _ => cases he

/-! ### Loads and their documents -/

/-- A load that has not settled. -/
def State.Loading (s : State) (n : NodeId) (l : LoadId) : Prop :=
  ∃ x, s.loader.loads l = some x ∧ x.nodeId = n ∧ x.phase.inFlight = true

/-- The documents of a node: the managed one, and the ones of its loads under
way. -/
inductive State.HasDoc (s : State) (n : NodeId) : DocRef ⊕ LoadId → Prop
  | managed {r : DocRef} (h : s.mem.docs n = some r) : s.HasDoc n (.inl r)
  | loading {l : LoadId} (h : s.Loading n l) : s.HasDoc n (.inr l)

theorem outcome_of_loads {l : LoadId} {x : Load} (h : s.loader.loads l = some x) :
    s.outcome l = match x.phase with
      | .resolved r => some (.ok r)
      | .rejected failure => some (.error failure)
      | _ => none := by
  rw [outcome_eq, h, Option.map_some]
  cases x.phase <;> rfl

/-- A load has an outcome exactly when it is over. -/
theorem exists_of_outcome {l : LoadId} {result : Except Failure DocRef}
    (h : s.outcome l = some result) :
    ∃ x, s.loader.loads l = some x ∧ x.phase.inFlight = false ∧
      ((∃ r, x.phase = .resolved r ∧ result = .ok r) ∨
        ∃ failure, x.phase = .rejected failure ∧ result = .error failure) := by
  cases hload : s.loader.loads l with
  | none => simp [outcome_eq, hload] at h
  | some x =>
      rw [outcome_of_loads hload] at h
      refine ⟨x, rfl, ?_⟩
      split at h
      · next r hphase =>
          cases h
          exact ⟨by rw [hphase]; rfl, Or.inl ⟨r, hphase, rfl⟩⟩
      · next failure hphase =>
          cases h
          exact ⟨by rw [hphase]; rfl, Or.inr ⟨failure, hphase, rfl⟩⟩
      · cases h

/-- A load that is over stays as it is until the process ends. -/
theorem load_of_not_inFlight (hL : LoadInv s) (h : step lex s e = some s') {l : LoadId} {x : Load}
    (hload : s.loader.loads l = some x) (hover : x.phase.inFlight = false) :
    s'.loader.loads l = some x ∨ e = .restart := by
  have hphase : ∀ {i y phase}, s.loader.loads i = some y → y.phase.inFlight = true →
      (s.loader.setPhase i phase).loads l = some x := by
    intro i y phase hy hin
    have hne : l ≠ i := by
      rintro rfl
      rw [hload] at hy
      cases hy
      rw [hover] at hin
      cases hin
    simp [Loader.setPhase, hne, hload]
  by_cases he : e = .restart
  · exact Or.inr he
  refine Or.inl ?_
  cases step_loads h with
  | same hloader _ _ => rw [hloader.loads, hload]
  | ask a n ws hloader _ _ =>
      rw [hloader.loads]
      rcases getOrCreateDoc_cases s n ws with ⟨r, -, -, hld⟩ | ⟨i, -, -, -, hld⟩ | ⟨-, -, -, hld⟩
      · rw [hld, hload]
      · rw [hld, hload]
      · rw [hld]
        show Function.update s.loader.loads s.loader.nextLoad _ l = some x
        rw [Function.update_of_ne (hL.load_lt hload).ne, hload]
  | resume a c _ _ hloader _ _ =>
      rw [hloader.loads]
      simpa using hload
  | move i y phase hy hmoves hloader _ _ =>
      rw [hloader.loads]
      exact hphase hy (inFlight_of_moves hmoves)
  | put i y doc ws hy hdoc _ hloader _ =>
      rw [hloader.loads]
      exact hphase hy (inFlight_of_document hdoc)
  | restart hloads _ _ =>
      rcases (gets_of_step h).loads with he' | hkeeps
      · exact absurd he' he
      · obtain ⟨x', hx'⟩ := hkeeps hload
        rw [hloads] at hx'
        cases hx'

/-- **An outcome is final.** -/
theorem outcome_of_step (hL : LoadInv s) (h : step lex s e = some s') {l : LoadId}
    {result : Except Failure DocRef} (hout : s.outcome l = some result) :
    s'.outcome l = some result ∨ e = .restart := by
  obtain ⟨x, hload, hover, -⟩ := exists_of_outcome hout
  rcases load_of_not_inFlight hL h hload hover with hload' | he
  · rw [outcome_of_loads hload] at hout
    exact Or.inl (by rw [outcome_of_loads hload', hout])
  · exact Or.inr he

/-- The `finally` of the caller that resumes. -/
private theorem loading_of_resumes (h : step lex s e = some s') {a : ℕ ⊕ TaskId} {c : GetCall}
    (he : e.resumes = some a) (ha : s.awaiting a = some c) :
    s'.loader.loading = (s.finishAwait c.nodeId c.await).loader.loading := by
  cases e with
  | resumeGet get =>
      cases he
      have hget : s.loader.gets get = some c := ha
      simp only [step, hget] at h
      split at h <;> cases h
      rfl
  | resumeAppend t clientId =>
      cases he
      obtain ⟨entry, htask, hphase, hkey⟩ := awaiting_task ha
      obtain ⟨entry₁, await₁, ws, markdown, userId, htask₁, hphase₁, -, hcase⟩ :=
        State.resumeAppend_step s h
      rw [htask] at htask₁
      cases htask₁
      rw [hphase] at hphase₁
      cases hphase₁
      rw [← hkey]
      rcases hcase with ⟨failure, -, rfl⟩ | ⟨r, result, mem, -, -, -, ⟨-, rfl⟩ | ⟨-, hflush⟩⟩
      · rfl
      · rfl
      · rw [hflush.stores.2.2]
  | _ => cases he

/-- A load that has ended was over before, or ends now: with a new object, which
it puts into `docs`, or because the database failed. -/
private theorem over_of_step (h : step lex s e = some s') {l : LoadId} {x' : Load}
    (hload : s'.loader.loads l = some x') (hover : x'.phase.inFlight = false) :
    s.loader.loads l = some x' ∨
      (x'.phase = .resolved s.mem.nextRef ∧ s.Loading x'.nodeId l ∧
        s'.mem.docs x'.nodeId = some s.mem.nextRef ∧ s'.mem.nextRef = s.mem.nextRef + 1 ∧
        ∀ i, i ≠ l → s'.loader.loads i = s.loader.loads i) ∨
      s.Loading x'.nodeId l ∧ (∃ failure, x'.phase = .rejected failure) ∧
        ∀ n, s.mem.docs n = none → s'.mem.docs n = none := by
  cases step_loads h with
  | same hloader _ _ => exact Or.inl (by rw [← hloader.loads, hload])
  | ask a n ws hloader _ _ =>
      rw [hloader.loads] at hload
      rcases getOrCreateDoc_cases s n ws with ⟨r, -, -, hld⟩ | ⟨i, -, -, -, hld⟩ | ⟨-, -, -, hld⟩
      · exact Or.inl (by rw [← hload, hld])
      · exact Or.inl (by rw [← hload, hld])
      · rw [hld] at hload
        have hupdate : Function.update s.loader.loads s.loader.nextLoad
            (some ⟨n, ws, .loadFromRedis⟩) l = some x' := hload
        by_cases hl : l = s.loader.nextLoad
        · rw [hl, Function.update_self] at hupdate
          cases hupdate
          cases hover
        · exact Or.inl (by rw [← hupdate, Function.update_of_ne hl])
  | resume a c _ _ hloader _ _ =>
      rw [hloader.loads] at hload
      exact Or.inl (by simpa using hload)
  | move i x phase hx hmoves hloader _ hdocs =>
      rw [hloader.loads] at hload
      obtain ⟨x₀, hx₀, hnode, ⟨-, rfl⟩ | ⟨rfl, hphase⟩⟩ := setPhase_of_some hload
      · exact Or.inl hx₀
      · rw [hx] at hx₀
        cases hx₀
        refine Or.inr (Or.inr ⟨⟨x, hx, hnode.symm, inFlight_of_moves hmoves⟩, ?_, @hdocs⟩)
        rw [hphase] at hover ⊢
        cases hmoves with
        | redis reply rest _ _ _ => cases hover
        | miss _ _ => cases hover
        | db ok clientId _ _ =>
            cases ok with
            | true => cases hover
            | false => exact ⟨_, rfl⟩
  | put i x doc ws hx hdoc hmem hloader _ =>
      rw [hloader.loads] at hload
      obtain ⟨x₀, hx₀, hnode, ⟨-, rfl⟩ | ⟨rfl, hphase⟩⟩ := setPhase_of_some hload
      · exact Or.inl hx₀
      · rw [hx] at hx₀
        cases hx₀
        refine Or.inr (Or.inl ⟨hphase, ⟨x, hx, hnode.symm, inFlight_of_document hdoc⟩, ?_,
          by rw [hmem]; rfl, fun j hj => by rw [hloader.loads]; simp [Loader.setPhase, hj]⟩)
        rw [hmem, hnode]
        exact Function.update_self ..
  | restart hloads _ _ =>
      rw [hloads] at hload
      cases hload

private theorem loader_of_document {l : LoadId} {x : Load} {doc : YDoc}
    (h : s.continueLoad l = some s') (hload : s.loader.loads l = some x)
    (hdoc : x.phase.document = some doc) :
    s'.loader = s.loader.setPhase l (.resolved s.mem.nextRef) := by
  obtain ⟨x₁, hload₁, ⟨hphase, -⟩ | ⟨state, ws, rfl, -⟩⟩ := State.continueLoad_cases s h
  · obtain rfl : x = x₁ := Option.some.inj (hload.symm.trans hload₁)
    simp [LoadPhase.document, hphase] at hdoc
  · rfl

/-- A document that a step puts into `docs` is the one of a load of its node. -/
private theorem source_of_step (h : step lex s e = some s') {n : NodeId} {r : DocRef}
    (hr : s'.mem.docs n = some r) :
    s.mem.docs n = some r ∨
      ∃ l x', s'.loader.loads l = some x' ∧ x'.nodeId = n ∧ x'.phase = .resolved r ∧
        s.Loading n l := by
  cases step_mem h with
  | same hmem => exact Or.inl (by rw [← hmem.docs, hr])
  | edit r' u _ hmem => exact Or.inl (by rw [← hmem.docs, hr])
  | put l x doc ws he hx hdoc hmem =>
      rw [hmem] at hr
      by_cases hn : n = x.nodeId
      · subst hn
        have hself : Function.update s.mem.docs x.nodeId (some s.mem.nextRef) x.nodeId =
            some r := hr
        rw [Function.update_self] at hself
        cases hself
        have hloader := loader_of_document (by rw [he] at h; exact h) hx hdoc
        have hload : s'.loader.loads l = some { x with phase := .resolved s.mem.nextRef } := by
          rw [hloader]
          simp [Loader.setPhase, hx]
        exact Or.inr ⟨l, _, hload, rfl, rfl, x, hx, rfl, inFlight_of_document hdoc⟩
      · exact Or.inl ((Function.update_of_ne hn ..).symm.trans hr)
  | remove hmem =>
      rcases hmem.docs n with hn | hn <;> rw [hn] at hr
      · exact Or.inl hr
      · cases hr
  | saved t entry r' save sv p _ _ _ hmem => exact Or.inl (by rw [← hmem.docs, hr])

/-! ### The invariant -/

/-- **The invariant of the loads and their callers.** -/
structure FlightInv (s : State) : Prop extends LoadInv s where
  called : ∀ {a c}, s.awaiting a = some c → s.called a
  /-- The caller that started the load of an entry of `loading` is suspended. -/
  starter : ∀ {n l}, s.loader.loading n = some l → ∃ a, s.awaiting a = some ⟨n, .load l true⟩
  /-- Only a load that found a document leaves one in `docs`. -/
  failed : ∀ {n l x failure}, s.loader.loading n = some l → s.loader.loads l = some x →
    x.phase = .rejected failure → s.mem.docs n = none
  resolved_lt : ∀ {l x r}, s.loader.loads l = some x → x.phase = .resolved r → r < s.mem.nextRef
  /-- Each load has made a document of its own. -/
  resolved_inj : ∀ {l l' x x' r}, s.loader.loads l = some x → s.loader.loads l' = some x' →
    x.phase = .resolved r → x'.phase = .resolved r → l = l'
  /-- The managed document of a node was made by a load of this node. -/
  managed : ∀ {n r}, s.mem.docs n = some r →
    ∃ l x, s.loader.loads l = some x ∧ x.nodeId = n ∧ x.phase = .resolved r

theorem flightInv_init (nodes : NodeId → Option NodeRow) : FlightInv (State.init nodes) where
  toLoadInv := loadInv_init nodes
  called {a c} h := by cases a <;> cases h
  starter h := by cases h
  failed h := by cases h
  resolved_lt h := by cases h
  resolved_inj h := by cases h
  managed h := by cases h

namespace FlightInv

variable (hF : FlightInv s)
include hF

/-- Every step keeps the invariant. -/
theorem step (h : step lex s e = some s') : FlightInv s' where
  toLoadInv := hF.toLoadInv.step h
  called {a c} ha := by
    cases a with
    | inl get =>
        rcases (gets_of_step h).new ha with hold | hlt
        · have hlt : get < s.loader.nextGet := hF.called (a := .inl get) hold
          exact Nat.lt_of_lt_of_le hlt (gets_of_step h).next_le
        · exact hlt
    | inr t =>
        obtain ⟨entry, hentry, hphase, -⟩ := awaiting_task ha
        exact ⟨entry, hentry, by simp [hphase]⟩
  starter {n l} hl := by
    rcases (gets_of_step h).loading hl with hold | ⟨hdocs, hfree, rfl, a, he⟩
    · obtain ⟨a, ha⟩ := hF.starter hold
      refine ⟨a, ?_⟩
      rcases awaiting_of_step h (hF.called ha) ha with ha' | rfl | ⟨he, -⟩
      · exact ha'
      · cases h
        cases hl
      · -- the caller resumes, and takes its entry away
        rw [loading_of_resumes h he ha] at hl
        simp [State.finishAwait] at hl
    · obtain ⟨ws, ha, -, -⟩ := awaiting_of_asks h he
      refine ⟨a, ?_⟩
      rw [ha]
      unfold State.getOrCreateDoc
      rw [hdocs, hfree]
  failed {n l x' failure} hl hx' hphase := by
    rcases over_of_step h hx' (by rw [hphase]; rfl) with hold | ⟨hphase', -⟩ |
      ⟨⟨x, hx, hnode, hin⟩, -, hdocs⟩
    · rcases (gets_of_step h).loading hl with hl | ⟨-, -, rfl, -⟩
      · -- a load that puts a document of `n` would be the one that has failed
        refine Option.eq_none_iff_forall_ne_some.mpr fun r hr => ?_
        rcases source_of_step h hr with hr | ⟨l₂, x₂, -, -, -, x₂', hx₂', rfl, hin⟩
        · rw [hF.failed hl hold hphase] at hr
          cases hr
        · rw [(hF.inFlight hx₂' hin).1] at hl
          cases hl
          rw [hold] at hx₂'
          cases hx₂'
          rw [hphase] at hin
          cases hin
      · exact absurd rfl (hF.load_lt hold).ne
    · rw [hphase] at hphase'
      cases hphase'
    · obtain ⟨x₁, hx₁, rfl⟩ := (hF.toLoadInv.step h).loading hl
      rw [hx'] at hx₁
      cases hx₁
      exact hdocs _ (hnode ▸ (hF.inFlight hx hin).2)
  resolved_lt {l x' r} hx' hphase := by
    rcases over_of_step h hx' (by rw [hphase]; rfl) with hold | ⟨hphase', -, -, hnext, -⟩ |
      ⟨-, ⟨failure, hrejected⟩, -⟩
    · exact Nat.lt_of_lt_of_le (hF.resolved_lt hold hphase) (nextRef_le_of_step h)
    · rw [hphase] at hphase'
      cases hphase'
      rw [hnext]
      exact Nat.lt_succ_self _
    · rw [hphase] at hrejected
      cases hrejected
  resolved_inj {l l' x x' r} hx hx' hphase hphase' := by
    -- the object of a load that ends now is new
    have hnew : ∀ {l l' x x'}, s'.loader.loads l = some x → s'.loader.loads l' = some x' →
        x.phase = .resolved r → x'.phase = .resolved r → s.loader.loads l ≠ some x → l = l' := by
      intro l l' x x' hx hx' hphase hphase' hne
      by_contra hll'
      rcases over_of_step h hx (by rw [hphase]; rfl) with hold | ⟨hr, -, -, -, hothers⟩ |
        ⟨-, ⟨failure, hr⟩, -⟩
      · exact hne hold
      · rw [hothers l' (Ne.symm hll')] at hx'
        rw [hphase] at hr
        cases hr
        exact absurd (hF.resolved_lt hx' hphase') (Nat.lt_irrefl _)
      · rw [hphase] at hr
        cases hr
    by_cases hold : s.loader.loads l = some x
    · by_cases hold' : s.loader.loads l' = some x'
      · exact hF.resolved_inj hold hold' hphase hphase'
      · exact (hnew hx' hx hphase' hphase hold').symm
    · exact hnew hx hx' hphase hphase' hold
  managed {n r} hr := by
    rcases source_of_step h hr with hold | ⟨l, x', hx', hnode, hphase, -⟩
    · obtain ⟨l, x, hx, hnode, hphase⟩ := hF.managed hold
      rcases load_of_not_inFlight hF.toLoadInv h hx (by rw [hphase]; rfl) with hx' | rfl
      · exact ⟨l, x, hx', hnode, hphase⟩
      · cases h
        cases hr
    · exact ⟨l, x', hx', hnode, hphase⟩

/-- A load under way has no outcome, and its caller awaits it. -/
private theorem loading_inj {n : NodeId} {l l' : LoadId} (hl : s.Loading n l)
    (hl' : s.Loading n l') : l = l' := by
  obtain ⟨x, hx, rfl, hin⟩ := hl
  obtain ⟨x', hx', hnode, hin'⟩ := hl'
  have hsame := (hF.inFlight hx' hin').1
  rw [hnode, (hF.inFlight hx hin).1] at hsame
  exact Option.some.inj hsame

/-- A node without an entry in either map keeps none until somebody asks for it. -/
private theorem absent_of_step (h : DocManager.step lex s e = some s') {n : NodeId}
    (hasks : ∀ a, e.asks s ≠ some (a, n)) (hn : s.mem.docs n = none ∧ s.loader.loading n = none) :
    s'.mem.docs n = none ∧ s'.loader.loading n = none := by
  obtain ⟨hdocs, hfree⟩ := hn
  constructor
  · refine Option.eq_none_iff_forall_ne_some.mpr fun r hr => ?_
    rcases source_of_step h hr with hr | ⟨l, -, -, -, -, x, hx, rfl, hin⟩
    · rw [hdocs] at hr
      cases hr
    · rw [(hF.inFlight hx hin).1] at hfree
      cases hfree
  · refine Option.eq_none_iff_forall_ne_some.mpr fun l hl => ?_
    rcases (gets_of_step h).loading hl with hl | ⟨-, -, -, a, he⟩
    · rw [hfree] at hl
      cases hl
    · exact hasks a he

end FlightInv

/-- A caller that awaits a load receives the outcome of this load, whatever
happens before it resumes. -/
private theorem receives_of_exec {a : ℕ ⊕ TaskId} {n : NodeId} {l : LoadId} {first : Bool}
    (hcalled : s.called a) (ha : s.awaiting a = some ⟨n, .load l first⟩) {es : List Event}
    (hes : exec (step lex) s es = some s') {result : Except Failure DocRef}
    (hresult : s'.receives a = some result) : s'.outcome l = some result := by
  have hreach : Reachable (step lex) s s' := ⟨es, hes⟩
  have hstays : s'.called a ∧ ∀ c, s'.awaiting a = some c → c = ⟨n, .load l first⟩ := by
    refine hreach.invariant
      (I := fun s => s.called a ∧ ∀ c, s.awaiting a = some c → c = ⟨n, .load l first⟩) ?_ ?_
    · exact ⟨hcalled, fun c hc => Option.some.inj (hc.symm.trans ha)⟩
    · rintro s e s' h ⟨hcalled, hold⟩
      exact ⟨called_of_step h hcalled, fun c hc => hold c (awaiting_old h hcalled hc)⟩
  obtain ⟨-, hawait⟩ := hstays
  obtain ⟨c, hc, hresult⟩ := Option.bind_eq_some_iff.mp hresult
  rw [hawait c hc] at hresult
  exact hresult

/-! ### Runs -/

/-- **What holds at every moment.** -/
structure OneDocument (s : State) : Prop where
  /-- A node has at most one document that is managed or being loaded. -/
  live : ∀ {n d d'}, s.HasDoc n d → s.HasDoc n d' → d = d'
  /-- A node is being loaded from the stores at most once. -/
  sequence : ∀ {n l l'}, s.Loading n l → s.Loading n l' → l = l'
  /-- The promise of a load that has failed is in `loading` as long as the caller
  that started it has not resumed. -/
  failed : ∀ {n l failure}, s.loader.loading n = some l → s.outcome l = some (.error failure) →
    ∃ a, s.awaiting a = some ⟨n, .load l true⟩

/-- **What a step does to the callers.** -/
structure SharedLoad (lex : Lexical) (s : State) (e : Event) (s' : State) : Prop where
  /-- Who calls while a load of the node is under way receives, when it resumes,
  what this load has ended with. -/
  overlap : ∀ {a n l}, e.asks s = some (a, n) → s.Loading n l →
    ∀ {es s''}, exec (step lex) s' es = some s'' →
      ∀ {result}, s''.receives a = some result → s''.outcome l = some result
  /-- Who calls for a node that is in neither map starts a load, and receives
  what it has ended with. -/
  start : ∀ {a n}, e.asks s = some (a, n) → s.mem.docs n = none → s.loader.loading n = none →
    s'.Loading n s.loader.nextLoad ∧ s.loader.loads s.loader.nextLoad = none ∧
      ∀ {es s''}, exec (step lex) s' es = some s'' →
        ∀ {result}, s''.receives a = some result → s''.outcome s.loader.nextLoad = some result
  /-- A load that ends well has put a new document into `docs`. -/
  ends : ∀ {n l r}, s.Loading n l → s'.outcome l = some (.ok r) →
    s'.mem.docs n = some r ∧ ∀ m, s.mem.docs m ≠ some r
  /-- The outcome of a load does not change while the process lives. -/
  final : ∀ {l result}, s.outcome l = some result →
    s'.outcome l = some result ∨ e = .restart
  /-- When the first caller of a failed load resumes, the node leaves `loading`,
  and it is in neither map until the next call. -/
  retry : ∀ {a n l failure}, e.resumes = some a → s.awaiting a = some ⟨n, .load l true⟩ →
    s.outcome l = some (.error failure) →
    ∀ {es s''}, Along (step lex) (fun s e _ => ∀ a, e.asks s ≠ some (a, n)) s' es →
      exec (step lex) s' es = some s'' →
        s''.mem.docs n = none ∧ s''.loader.loading n = none

theorem oneDocument (hF : FlightInv s) : OneDocument s where
  live {n d d'} hd hd' := by
    cases hd with
    | managed hr =>
        cases hd' with
        | managed hr' => rw [Option.some.inj (hr.symm.trans hr')]
        | loading hl =>
            obtain ⟨x, hx, rfl, hin⟩ := hl
            rw [(hF.inFlight hx hin).2] at hr
            cases hr
    | loading hl =>
        cases hd' with
        | managed hr =>
            obtain ⟨x, hx, rfl, hin⟩ := hl
            rw [(hF.inFlight hx hin).2] at hr
            cases hr
        | loading hl' => rw [hF.loading_inj hl hl']
  sequence hl hl' := hF.loading_inj hl hl'
  failed hl _ := hF.starter hl

theorem sharedLoad (hF : FlightInv s) (h : step lex s e = some s') :
    SharedLoad lex s e s' where
  overlap {a n l} he hl {es s''} hes {result} hresult := by
    obtain ⟨ws, ha, -, hcalled⟩ := awaiting_of_asks h he
    obtain ⟨x, hx, rfl, hin⟩ := hl
    obtain ⟨hloading, hdocs⟩ := hF.inFlight hx hin
    have hanswer : (s.getOrCreateDoc x.nodeId ws).2 = .load l false := by
      unfold State.getOrCreateDoc
      rw [hdocs, hloading]
    rw [hanswer] at ha
    exact receives_of_exec hcalled ha hes hresult
  start {a n} he hdocs hfree := by
    obtain ⟨ws, ha, hloader, hcalled⟩ := awaiting_of_asks h he
    have hanswer : (s.getOrCreateDoc n ws).2 = .load s.loader.nextLoad true := by
      unfold State.getOrCreateDoc
      rw [hdocs, hfree]
    have hload : s'.loader.loads s.loader.nextLoad = some ⟨n, ws, .loadFromRedis⟩ := by
      rw [hloader.loads]
      unfold State.getOrCreateDoc
      rw [hdocs, hfree]
      exact Function.update_self ..
    refine ⟨⟨_, hload, rfl, rfl⟩, ?_, fun {es s''} hes {result} hresult => ?_⟩
    · exact Option.eq_none_iff_forall_ne_some.mpr fun x hx =>
        absurd (hF.load_lt hx) (Nat.lt_irrefl _)
    · rw [hanswer] at ha
      exact receives_of_exec hcalled ha hes hresult
  ends {n l r} hl hr := by
    obtain ⟨x, hx, rfl, hin⟩ := hl
    obtain ⟨x', hx', hover, ⟨r', hphase, hr'⟩ | ⟨failure, -, hr'⟩⟩ := exists_of_outcome hr
    · cases hr'
      rcases over_of_step h hx' hover with hold | ⟨hphase', ⟨x₁, hx₁, hnode, -⟩, hdocs, -, -⟩ |
        ⟨-, ⟨failure, hphase'⟩, -⟩
      · rw [hx] at hold
        cases hold
        rw [hin] at hover
        cases hover
      · rw [hphase] at hphase'
        cases hphase'
        rw [hx] at hx₁
        cases hx₁
        refine ⟨hnode ▸ hdocs, fun m hm => ?_⟩
        obtain ⟨l', x', hx', -, hphase'⟩ := hF.managed hm
        exact absurd (hF.resolved_lt hx' hphase') (Nat.lt_irrefl _)
      · rw [hphase] at hphase'
        cases hphase'
    · cases hr'
  final hout := outcome_of_step hF.toLoadInv h hout
  retry {a n l failure} he ha hout {es s''} hasks hes := by
    have hloading := hF.first ha
    obtain ⟨x, hx, rfl⟩ := hF.loading hloading
    have hfailed : x.phase = .rejected failure := by
      obtain ⟨x', hx', -, ⟨r, -, hr⟩ | ⟨failure', hphase, hr⟩⟩ := exists_of_outcome hout
      · cases hr
      · cases hr
        rw [hx] at hx'
        cases hx'
        exact hphase
    have habsent : s'.mem.docs x.nodeId = none ∧ s'.loader.loading x.nodeId = none := by
      constructor
      · have hdocs := hF.failed hloading hx hfailed
        refine Option.eq_none_iff_forall_ne_some.mpr fun r hr => ?_
        rcases source_of_step h hr with hr | ⟨l', -, -, -, -, x', hx', hnode, hin⟩
        · rw [hdocs] at hr
          cases hr
        · have hsame := (hF.inFlight hx' hin).1
          rw [hnode, hloading] at hsame
          cases hsame
          rw [hx] at hx'
          cases hx'
          rw [hfailed] at hin
          cases hin
      · rw [loading_of_resumes h he ha]
        exact Function.update_self ..
    exact (exec_invariant
      (I := fun s => FlightInv s ∧ s.mem.docs x.nodeId = none ∧ s.loader.loading x.nodeId = none)
      (fun _ _ _ h ⟨hF, hn⟩ hasks => ⟨hF.step h, hF.absent_of_step h hasks hn⟩)
      hes ⟨hF.step h, habsent⟩ hasks).2

/-- **One live document per node.**  In every run each node has at most one
document that is managed or being loaded, callers that overlap share the load and
what it ends with, and a failed load is forgotten by the time its first caller has
resumed, so that the next call starts another. -/
theorem one_document_per_node (lex : Lexical) (nodes : NodeId → Option NodeRow)
    (es : List Event) :
    Along (step lex) (fun s e s' => OneDocument s' ∧ SharedLoad lex s e s')
      (State.init nodes) es :=
  along_of_preserved (I := FlightInv)
    (fun _ _ _ h hF => ⟨hF.step h, oneDocument (hF.step h), sharedLoad hF h⟩)
    (flightInv_init nodes) es

end AideepWebsocket.DocManager
