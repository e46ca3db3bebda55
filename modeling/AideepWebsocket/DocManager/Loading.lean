import AideepWebsocket.DocManager.Invariant

/-!
# The loads of YjsDocManager

`getOrCreateDoc` starts a load only for a node that is neither in `docs` nor in
`loading`, and the caller that started a load removes it from `loading` when it
resumes.  Callers are suspended in two places: outside the queue (`gets`), and
inside it, where `appendMarkdown` awaits its document.  `State.awaiting` puts the
two together.

`LoadInv` is what follows for every reachable state: a load in flight is the one
that `loading` names, and its node is not in `docs`.  So a node is loaded by one
load at a time, and while it is loaded no flush can capture it.
-/

namespace AideepWebsocket.DocManager

open Library

variable {lex : Lexical} {s s' : State} {e : Event}

/-- The load has not settled. -/
def LoadPhase.inFlight : LoadPhase → Bool
  | .resolved _ | .rejected _ => false
  | _ => true

/-- What a suspended caller of `getOrCreateDoc` awaits: a caller outside the
queue, or the append of a task. -/
def State.awaiting (s : State) : ℕ ⊕ TaskId → Option GetCall
  | .inl get => s.loader.gets get
  | .inr t => (s.queue.task t).bind fun entry =>
      match entry.payload.phase with
      | .loadingDoc await => some ⟨entry.key, await⟩
      | _ => none

theorem awaiting_task {t : TaskId} {c : GetCall} (h : s.awaiting (.inr t) = some c) :
    ∃ entry, s.queue.task t = some entry ∧ entry.payload.phase = .loadingDoc c.await ∧
      entry.key = c.nodeId := by
  obtain ⟨entry, hentry, h⟩ := Option.bind_eq_some_iff.mp h
  refine ⟨entry, hentry, ?_⟩
  split at h <;> cases h
  next await hphase => exact ⟨hphase, rfl⟩

theorem awaiting_of_task {t : TaskId} {entry : ChainTask NodeId Task} {await : Await}
    (h : s.queue.task t = some entry) (hphase : entry.payload.phase = .loadingDoc await) :
    s.awaiting (.inr t) = some ⟨entry.key, await⟩ := by
  simp [State.awaiting, h, hphase]

/-- The `loading` map and the loads are the same. -/
structure Loader.SameLoads (ld ld' : Loader) : Prop where
  loads : ld'.loads = ld.loads
  loading : ld'.loading = ld.loading
  nextLoad : ld'.nextLoad = ld.nextLoad

/-- How an event can change the loads and those who await them. -/
inductive LoadStep (lex : Lexical) (s : State) (e : Event) (s' : State) : Prop
  | same (hloader : s.loader.SameLoads s'.loader)
      (hawait : ∀ {b c}, s'.awaiting b = some c → s.awaiting b = some c)
      (hdocs : ∀ {n}, s.mem.docs n = none → s'.mem.docs n = none)
  /-- The caller `a` asks for the document of `n`. -/
  | ask (a : ℕ ⊕ TaskId) (n : NodeId) (ws : WorkspaceId)
      (hloader : (s.getOrCreateDoc n ws).1.loader.SameLoads s'.loader)
      (hawait : ∀ {b c}, s'.awaiting b = some c →
        s.awaiting b = some c ∨ b = a ∧ c = ⟨n, (s.getOrCreateDoc n ws).2⟩)
      (hdocs : ∀ {n}, s.mem.docs n = none → s'.mem.docs n = none)
  /-- The caller `a` resumes. -/
  | resume (a : ℕ ⊕ TaskId) (c : GetCall) (hc : s.awaiting a = some c)
      (hawaited : s.awaited c.await ≠ none)
      (hloader : (s.finishAwait c.nodeId c.await).loader.SameLoads s'.loader)
      (hawait : ∀ {b c}, s'.awaiting b = some c → s.awaiting b = some c ∧ b ≠ a)
      (hdocs : ∀ {n}, s.mem.docs n = none → s'.mem.docs n = none)
  | move (l : LoadId) (x : Load) (phase : LoadPhase) (hload : s.loader.loads l = some x)
      (hmoves : s.LoadMoves lex e l x phase)
      (hloader : (s.loader.setPhase l phase).SameLoads s'.loader)
      (hawait : ∀ {b c}, s'.awaiting b = some c → s.awaiting b = some c)
      (hdocs : ∀ {n}, s.mem.docs n = none → s'.mem.docs n = none)
  /-- A load ends with a document. -/
  | put (l : LoadId) (x : Load) (doc : YDoc) (ws : WorkspaceId)
      (hload : s.loader.loads l = some x) (hdoc : x.phase.document = some doc)
      (hmem : s'.mem = s.mem.put x.nodeId (ManagedDoc.loaded doc ws))
      (hloader : (s.loader.setPhase l (.resolved s.mem.nextRef)).SameLoads s'.loader)
      (hawait : ∀ {b c}, s'.awaiting b = some c → s.awaiting b = some c)
  | restart (hloads : ∀ l, s'.loader.loads l = none) (hloading : ∀ n, s'.loader.loading n = none)
      (hawait : ∀ b, s'.awaiting b = none)

private theorem Loader.SameLoads.of_eq {ld ld' : Loader} (h : ld' = ld) : ld.SameLoads ld' := by
  rw [h]
  exact ⟨rfl, rfl, rfl⟩

private theorem awaiting_congr (hqueue : s'.queue = s.queue)
    (hgets : s'.loader.gets = s.loader.gets) {b : ℕ ⊕ TaskId} {c : GetCall}
    (hb : s'.awaiting b = some c) : s.awaiting b = some c := by
  cases b with
  | inl get => exact (congrFun hgets get).symm.trans hb
  | inr t => simpa only [State.awaiting, hqueue] using hb

/-- A task that is not loading before and after its step is no awaiter. -/
private theorem awaiting_of_advance {s₁ : State} {t : TaskId} {p : Task} {q : Queue}
    (hqueue : s₁.queue = q.advance t p) (htasks : q.task = s.queue.task)
    (hgets : s₁.loader.gets = s.loader.gets) (hp : ∀ await, p.phase ≠ .loadingDoc await)
    {b : ℕ ⊕ TaskId} {c : GetCall} (hb : s₁.awaiting b = some c) : s.awaiting b = some c := by
  cases b with
  | inl get => exact (congrFun hgets get).symm.trans hb
  | inr i =>
      obtain ⟨entry, hentry, hphase, hkey⟩ := awaiting_task hb
      rw [hqueue] at hentry
      obtain ⟨entry₁, hentry₁, hkey₁, hpay⟩ := PromiseChain.exists_of_advance hentry
      rw [htasks] at hentry₁
      rcases hpay with hpay | ⟨-, hpay⟩
      · rw [awaiting_of_task hentry₁ (by rw [← hpay]; exact hphase), ← hkey₁, hkey]
      · rw [hpay] at hphase
        exact absurd hphase (hp _)

/-- After its step the advanced task itself is no awaiter. -/
private theorem ne_of_advance {s₁ : State} {t : TaskId} {entry : ChainTask NodeId Task} {p : Task}
    (hqueue : s₁.queue = s.queue.advance t p) (htask : s.queue.task t = some entry)
    {await : Await} (hphase : entry.payload.phase = .loadingDoc await)
    (hstage : p.stage ≠ .queued) (hp : ∀ await, p.phase ≠ .loadingDoc await)
    {b : ℕ ⊕ TaskId} {c : GetCall} (hb : s₁.awaiting b = some c) : b ≠ .inr t := by
  rintro rfl
  obtain ⟨entry₁, hentry₁, hphase₁, -⟩ := awaiting_task hb
  have hrun : entry.payload.stage = .running := by simp [Task.stage, hphase, Phase.stage]
  rw [hqueue, PromiseChain.advance_task_self htask
    (PromiseChain.canAdvance_of_running hrun hstage)] at hentry₁
  cases hentry₁
  exact hp _ hphase₁

/-- Flushes that are submitted await no load. -/
private theorem awaiting_of_submits (h : State.Submits s s') {b : ℕ ⊕ TaskId} {c : GetCall}
    (hb : s'.awaiting b = some c) : s.awaiting b = some c := by
  cases b with
  | inl get => exact (congrArg (fun ld : Loader => ld.gets get) h.loader).symm.trans hb
  | inr i =>
      obtain ⟨entry, hentry, hphase, hkey⟩ := awaiting_task hb
      rcases h.fresh hentry with hentry | ⟨-, caller, hpay⟩
      · rw [awaiting_of_task hentry hphase, hkey]
      · rw [hpay] at hphase
        cases hphase

private theorem awaiting_rejectSave {s₁ : State} {save : SaveId} {c₀ : SaveCall}
    {committed : Bool} {failure : Failure} (hqueue : s₁.queue = s.queue)
    (hgets : s₁.loader.gets = s.loader.gets) {b : ℕ ⊕ TaskId} {c : GetCall}
    (hb : (s₁.rejectSave save c₀ committed failure).awaiting b = some c) :
    s.awaiting b = some c := by
  refine awaiting_congr hqueue hgets ?_
  rcases State.rejectSave_queue s₁ save c₀ committed failure with
    hsame | ⟨entry, r, sv, redis, first, -, -, hadvance⟩
  · exact awaiting_congr hsame (by simp) hb
  · exact awaiting_of_advance hadvance rfl (by simp) (fun _ hp => by cases hp) hb

/-- The queue after `flushDocLocked`: its task has moved on. -/
private theorem State.FlushStep.advances {t : TaskId} {x : Task} {n : NodeId}
    (h : s.FlushStep t x n s') :
    ∃ p : Task, s'.queue = s.queue.advance t p ∧ p.stage ≠ .queued ∧
      ∀ await, p.phase ≠ .loadingDoc await := by
  cases h <;> exact ⟨_, rfl, by simp [Phase.stage], fun _ hp => by cases hp⟩

private theorem gets_getOrCreateDoc (s : State) (n : NodeId) (ws : WorkspaceId) :
    (s.getOrCreateDoc n ws).1.loader.gets = s.loader.gets ∧
      (s.getOrCreateDoc n ws).1.loader.nextGet = s.loader.nextGet := by
  unfold State.getOrCreateDoc
  split
  · exact ⟨rfl, rfl⟩
  · split <;> exact ⟨rfl, rfl⟩

private theorem gets_finishAwait (s : State) (n : NodeId) (await : Await) :
    (s.finishAwait n await).loader.gets = s.loader.gets := by
  unfold State.finishAwait
  split <;> rfl

/-- A call outside the queue is made. -/
private theorem awaiting_addGet {get : ℕ} {c₀ : GetCall} (hqueue : s'.queue = s.queue)
    (hgets : s'.loader.gets = Function.update s.loader.gets get (some c₀))
    {b : ℕ ⊕ TaskId} {c : GetCall} (hb : s'.awaiting b = some c) :
    s.awaiting b = some c ∨ b = .inl get ∧ c = c₀ := by
  cases b with
  | inl get' =>
      have hupdate : Function.update s.loader.gets get (some c₀) get' = some c :=
        (congrFun hgets get').symm.trans hb
      by_cases hget : get' = get
      · subst hget
        rw [Function.update_self] at hupdate
        exact Or.inr ⟨rfl, (Option.some.inj hupdate).symm⟩
      · rw [Function.update_of_ne hget] at hupdate
        exact Or.inl hupdate
  | inr i =>
      obtain ⟨entry, hentry, hphase, hkey⟩ := awaiting_task hb
      rw [hqueue] at hentry
      exact Or.inl (by rw [awaiting_of_task hentry hphase, hkey])

/-- A call outside the queue ends. -/
private theorem awaiting_removeGet {get : ℕ} (hqueue : s'.queue = s.queue)
    (hgets : s'.loader.gets = Function.update s.loader.gets get none)
    {b : ℕ ⊕ TaskId} {c : GetCall} (hb : s'.awaiting b = some c) :
    s.awaiting b = some c ∧ b ≠ .inl get := by
  cases b with
  | inl get' =>
      have hupdate : Function.update s.loader.gets get none get' = some c :=
        (congrFun hgets get').symm.trans hb
      by_cases hget : get' = get
      · rw [hget, Function.update_self] at hupdate
        cases hupdate
      · rw [Function.update_of_ne hget] at hupdate
        exact ⟨hupdate, by simpa using hget⟩
  | inr i =>
      obtain ⟨entry, hentry, hphase, hkey⟩ := awaiting_task hb
      rw [hqueue] at hentry
      exact ⟨by rw [awaiting_of_task hentry hphase, hkey], by simp⟩

/-- A task comes to await a document. -/
private theorem awaiting_startAppend {t : TaskId} {entry : ChainTask NodeId Task} {await : Await}
    (htask : s.queue.task t = some entry)
    (hqueue : s'.queue = s.queue.advance t { entry.payload with phase := .loadingDoc await })
    (hgets : s'.loader.gets = s.loader.gets) {b : ℕ ⊕ TaskId} {c : GetCall}
    (hb : s'.awaiting b = some c) :
    s.awaiting b = some c ∨ b = .inr t ∧ c = ⟨entry.key, await⟩ := by
  cases b with
  | inl get => exact Or.inl ((congrFun hgets get).symm.trans hb)
  | inr i =>
      obtain ⟨entry', hentry', hphase', hkey'⟩ := awaiting_task hb
      rw [hqueue] at hentry'
      obtain ⟨entry₁, hentry₁, hkey₁, hpay⟩ := PromiseChain.exists_of_advance hentry'
      rcases hpay with hpay | ⟨rfl, hpay⟩
      · refine Or.inl ?_
        rw [awaiting_of_task hentry₁ (by rw [← hpay]; exact hphase'), ← hkey₁, hkey']
      · obtain rfl : entry = entry₁ := Option.some.inj (htask.symm.trans hentry₁)
        rw [hpay] at hphase'
        obtain rfl : await = c.await := by cases hphase'; rfl
        refine Or.inr ⟨rfl, ?_⟩
        rw [← hkey₁, hkey']

/-- **The loads.** -/
theorem step_loads (h : step lex s e = some s') : LoadStep lex s e s' := by
  have hsame : ∀ {m : Memory}, m.docs = s.mem.docs → s'.mem = m →
      ∀ {n}, s.mem.docs n = none → s'.mem.docs n = none := by
    intro m hm hmem n hn
    rw [hmem, hm, hn]
  have hremoves : ∀ {m : Memory}, s.mem.Removes m → s'.mem = m →
      ∀ {n}, s.mem.docs n = none → s'.mem.docs n = none := by
    intro m hm hmem n hn
    rw [hmem]
    rcases hm.docs n with hdocs | hdocs <;> simp [hdocs, hn]
  cases step_cases h with
  | schedule hmem hsub =>
      exact .same (.of_eq hsub.loader) (awaiting_of_submits hsub) (hsame hmem.docs rfl)
  | submitAppend n ws markdown userId _ hs' =>
      subst hs'
      refine .same ⟨rfl, rfl, rfl⟩ (fun {b c} hb => ?_) id
      cases b with
      | inl get => exact hb
      | inr i =>
          obtain ⟨entry, hentry, hphase, hkey⟩ := awaiting_task hb
          rcases State.runExclusive_fresh s hentry with hentry | ⟨-, hpay⟩
          · rw [awaiting_of_task hentry hphase, hkey]
          · rw [hpay] at hphase
            cases hphase
  | get n ws _ hmem hwork hloader =>
      refine .ask (.inl s.loader.nextGet) n ws
        (by rw [hloader]; exact ⟨rfl, rfl, rfl⟩) (fun {b c} hb => ?_) (hsame hmem.docs rfl)
      obtain ⟨hgets, hnext⟩ := gets_getOrCreateDoc s n ws
      refine awaiting_addGet hwork.queue ?_ hb
      rw [hloader, ← hgets, ← hnext]
      rfl
  | resumeGet get c _ hget hawaited hmem hwork hloader =>
      refine .resume (.inl get) c hget hawaited (by rw [hloader]; exact ⟨rfl, rfl, rfl⟩)
        (fun {b c'} hb => awaiting_removeGet hwork.queue ?_ hb) (hsame rfl hmem)
      rw [hloader, ← gets_finishAwait s c.nodeId c.await]
      rfl
  | loadMoved l x phase hload hmoves hmem hwork hloader =>
      have hawait : ∀ {b c}, s'.awaiting b = some c → s.awaiting b = some c :=
        awaiting_congr hwork.queue (by rw [hloader]; rfl)
      exact .move l x phase hload hmoves (.of_eq hloader)
        hawait (hsame rfl hmem)
  | put l x doc ws _ hload hdoc hmem hwork hloader =>
      have hawait : ∀ {b c}, s'.awaiting b = some c → s.awaiting b = some c :=
        awaiting_congr hwork.queue (by rw [hloader]; rfl)
      exact .put l x doc ws hload hdoc hmem (.of_eq hloader)
        hawait
  | edit n r u _ _ hmem hwork hloader =>
      have hawait : ∀ {b c}, s'.awaiting b = some c → s.awaiting b = some c :=
        awaiting_congr hwork.queue (congrArg Loader.gets hloader)
      exact .same (.of_eq hloader) hawait
        (hsame hmem.docs rfl)
  | remove hmem hwork hloader =>
      have hawait : ∀ {b c}, s'.awaiting b = some c → s.awaiting b = some c :=
        awaiting_congr hwork.queue (congrArg Loader.gets hloader)
      exact .same (.of_eq hloader) hawait
        (hremoves hmem rfl)
  | startFlush t entry caller _ _ _ _ _ hflush =>
      obtain ⟨p, hqueue, -, hp⟩ := hflush.advances
      exact .same (.of_eq hflush.stores.2.2)
        (awaiting_of_advance hqueue rfl (congrArg Loader.gets hflush.stores.2.2) hp)
        (hsame hflush.sameDocs.docs rfl)
  | startAppend t entry ws await _ htask _ _ hawait hmem hwork hloader =>
      refine .ask (.inr t) entry.key ws (.of_eq hloader) (fun {b c} hb => ?_)
        (hsame hmem.docs rfl)
      rw [← hawait]
      refine awaiting_startAppend htask hwork.queue ?_ hb
      rw [hloader, (gets_getOrCreateDoc s entry.key ws).1]
  | appendFailed t clientId entry await failure _ htask hphase _ _ _ _ hfailed hmem hwork
      hloader =>
      have hawaited : s.awaited await ≠ none := by
        rcases hfailed with hfailed | ⟨r, hfailed, -⟩ <;> simp [hfailed]
      refine .resume (.inr t) _ (awaiting_of_task htask hphase) hawaited (.of_eq hloader)
        (fun {b c} hb => ⟨?_, ?_⟩) (hsame rfl hmem)
      · refine awaiting_of_advance hwork.queue rfl ?_ (fun _ hp => by cases hp) hb
        rw [hloader, gets_finishAwait]
      · exact ne_of_advance hwork.queue htask hphase (by simp [Phase.stage])
          (fun _ hp => by cases hp) hb
  | appended t clientId entry await ws markdown userId r result x s₁ _ htask hphase _ hawait _
      hmem hwork hloader _ _ hflush =>
      have hgets : s₁.loader.gets = s.loader.gets := by
        rw [hloader, gets_finishAwait]
      obtain ⟨p, hqueue, hstage, hp, hloader', hdocs⟩ : ∃ p : Task,
          s'.queue = s₁.queue.advance t p ∧ p.stage ≠ .queued ∧
          (∀ await, p.phase ≠ .loadingDoc await) ∧ s'.loader = s₁.loader ∧
          s'.mem.docs = s₁.mem.docs := by
        rcases hflush with ⟨-, rfl⟩ | ⟨-, hflush⟩
        · exact ⟨_, rfl, by simp [Phase.stage], fun _ hp => (by cases hp), rfl, rfl⟩
        · obtain ⟨p, hqueue, hstage, hp⟩ := hflush.advances
          exact ⟨p, hqueue, hstage, hp, hflush.stores.2.2, hflush.sameDocs.docs⟩
      refine .resume (.inr t) _ (awaiting_of_task htask hphase) (by simp [hawait])
        (.of_eq (hloader'.trans hloader)) (fun {b c} hb => ⟨?_, ?_⟩)
        (hsame (hdocs.trans hmem.docs) rfl)
      · exact awaiting_of_advance hqueue (by rw [hwork.queue])
          ((congrArg Loader.gets hloader').trans hgets) hp hb
      · exact ne_of_advance (by rw [hqueue, hwork.queue]) htask hphase hstage hp hb
  | continueFlush t entry mem phase _ htask hs' hcase =>
      have hdocs : mem.docs = s.mem.docs := by
        rcases hcase with ⟨rfl, -⟩ | ⟨rfl, -⟩ | ⟨rfl, -⟩ | ⟨r, save, sv, p, -, -, hrecord, -⟩
        · rfl
        · rfl
        · rfl
        · exact hrecord.docs
      have hphase : ∀ await, phase ≠ .loadingDoc await := by
        rcases hcase with ⟨-, -, -, -, rfl⟩ | ⟨-, -, rfl⟩ | ⟨-, -, -, -, -, -, -, rfl⟩ |
          ⟨-, -, -, -, -, -, -, rfl | ⟨job, rfl⟩⟩ <;>
          exact fun _ hp => by cases hp
      have hqueue : s'.queue = s.queue.advance t { entry.payload with phase := phase } := by
        rw [hs']
        rfl
      exact .same (by rw [hs']; exact ⟨rfl, rfl, rfl⟩)
        (awaiting_of_advance hqueue rfl (by rw [hs']; rfl) hphase) (hsame hdocs (by rw [hs']; rfl))
  | embedded t entry r persisted job _ _ hmem hwork hloader =>
      exact .same (.of_eq hloader) (awaiting_of_advance hwork.queue rfl
        (congrArg Loader.gets hloader) (fun _ hp => by cases hp)) (hsame rfl hmem)
  | returned t entry result s₁ _ _ _ hmem hwork hloader hsub =>
      refine .same (.of_eq (hsub.loader.trans hloader)) (fun {b c} hb => ?_)
        (hremoves hmem hsub.mem)
      exact awaiting_of_advance hwork.queue (by simp) (congrArg Loader.gets hloader)
        (fun _ hp => by cases hp) (awaiting_of_submits hsub hb)
  | redisSet reply n state t rest _ _ hs' =>
      have hloader : s'.loader = s.loader := by simp [hs']
      refine .same (.of_eq hloader) (fun {b c} hb => ?_) (hsame rfl (by simp [hs']))
      rcases State.saveToRedisReply_queue _ t (decide (reply = .ok)) with
        hqueue | ⟨entry, phase, -, hqueue, hcase⟩
      · exact awaiting_congr (by rw [hs', hqueue]) (congrArg Loader.gets hloader) hb
      · have hqueue' : s'.queue = s.queue.advance t { entry.payload with phase := phase } := by
          rw [hs']
          exact hqueue
        refine awaiting_of_advance hqueue' rfl (congrArg Loader.gets hloader) ?_ hb
        rcases hcase with ⟨r, persisted, -, rfl⟩ | ⟨r, save, sv, failure, -, rfl⟩ <;>
          exact fun _ hp => by cases hp
  | uncached n store _ hmem hwork hloader =>
      have hawait : ∀ {b c}, s'.awaiting b = some c → s.awaiting b = some c :=
        awaiting_congr hwork.queue (congrArg Loader.gets hloader)
      exact .same (.of_eq hloader) hawait (hsame rfl hmem)
  | commit save c reply now row _ _ _ _ _ hs' =>
      rcases hs' with rfl | rfl
      · exact .same ⟨rfl, rfl, rfl⟩ id id
      · exact .same (.of_eq (by simp)) (awaiting_rejectSave rfl rfl) (hsame rfl (by simp))
  | saveMoved save c _ hcase =>
      rcases hcase with ⟨-, failure, rfl⟩ | ⟨persisted, -, rfl | rfl⟩
      · exact .same (.of_eq (by simp)) (awaiting_rejectSave rfl rfl) (hsame rfl (by simp))
      · exact .same ⟨rfl, rfl, rfl⟩ id id
      · exact .same (.of_eq (by simp)) (awaiting_rejectSave rfl rfl) (hsame rfl (by simp))
  | otherWriter nodes hs' _ =>
      subst hs'
      exact .same ⟨rfl, rfl, rfl⟩ id id
  | restart _ hs' =>
      subst hs'
      refine .restart (fun _ => rfl) (fun _ => rfl) fun b => ?_
      cases b with
      | inl get => rfl
      | inr i =>
          cases hb : s.restart.awaiting (.inr i) with
          | none => rfl
          | some c =>
              obtain ⟨entry, hentry, hphase, -⟩ := awaiting_task hb
              obtain ⟨entry₀, -, rfl⟩ := Option.map_eq_some_iff.mp hentry
              have hstage := State.stage_goneTask entry₀.payload
              rw [Task.stage, show (State.goneTask entry₀.payload).phase = .loadingDoc c.await from
                hphase] at hstage
              cases hstage

/-! ### The invariant of the loader -/

/-- **The loader's invariant.** -/
structure LoadInv (s : State) : Prop where
  load_lt : ∀ {l x}, s.loader.loads l = some x → l < s.loader.nextLoad
  /-- `loading` names a load of its node. -/
  loading : ∀ {n l}, s.loader.loading n = some l →
    ∃ x, s.loader.loads l = some x ∧ x.nodeId = n
  /-- The caller that will remove an entry of `loading` will remove its own. -/
  first : ∀ {a n l}, s.awaiting a = some ⟨n, .load l true⟩ → s.loader.loading n = some l
  unique : ∀ {a b n m l}, s.awaiting a = some ⟨n, .load l true⟩ →
    s.awaiting b = some ⟨m, .load l true⟩ → a = b
  /-- A load in flight is the one `loading` names, and its node is not in `docs`. -/
  inFlight : ∀ {l x}, s.loader.loads l = some x → x.phase.inFlight = true →
    s.loader.loading x.nodeId = some l ∧ s.mem.docs x.nodeId = none

theorem loadInv_init (nodes : NodeId → Option NodeRow) : LoadInv (State.init nodes) where
  load_lt h := by cases h
  loading h := by cases h
  first {a n l} h := by cases a <;> cases h
  unique {a b n m l} h := by cases a <;> cases h
  inFlight h := by cases h

/-- The ways in which `getOrCreateDoc` answers: the document is there, a load of
it is under way, or a load starts. -/
theorem getOrCreateDoc_cases (s : State) (n : NodeId) (ws : WorkspaceId) :
    (∃ r, s.mem.docs n = some r ∧ (s.getOrCreateDoc n ws).2 = .ready r ∧
        (s.getOrCreateDoc n ws).1.loader = s.loader) ∨
      (∃ l, s.mem.docs n = none ∧ s.loader.loading n = some l ∧
        (s.getOrCreateDoc n ws).2 = .load l false ∧
        (s.getOrCreateDoc n ws).1.loader = s.loader) ∨
      s.mem.docs n = none ∧ s.loader.loading n = none ∧
        (s.getOrCreateDoc n ws).2 = .load s.loader.nextLoad true ∧
        (s.getOrCreateDoc n ws).1.loader = { s.loader with
          loads := Function.update s.loader.loads s.loader.nextLoad
            (some ⟨n, ws, .loadFromRedis⟩)
          loading := Function.update s.loader.loading n (some s.loader.nextLoad)
          nextLoad := s.loader.nextLoad + 1 } := by
  unfold State.getOrCreateDoc
  split
  · next r hdocs => exact Or.inl ⟨r, hdocs, rfl, rfl⟩
  · next hdocs =>
      split
      · next l hloading => exact Or.inr (Or.inl ⟨l, hdocs, hloading, rfl, rfl⟩)
      · next hloading => exact Or.inr (Or.inr ⟨hdocs, hloading, rfl, rfl⟩)

/-- The `finally` of a caller: `loading` loses the entry of the load it started. -/
theorem finishAwait_loading (s : State) (n : NodeId) (await : Await) (m : NodeId) :
    (s.finishAwait n await).loader.loading m = s.loader.loading m ∨
      m = n ∧ (∃ l, await = .load l true) ∧
        (s.finishAwait n await).loader.loading m = none := by
  unfold State.finishAwait
  split
  · next l =>
      by_cases hm : m = n
      · subst hm
        exact Or.inr ⟨rfl, ⟨l, rfl⟩, Function.update_self ..⟩
      · exact Or.inl (Function.update_of_ne hm ..)
  · exact Or.inl rfl

theorem setPhase_of_some {ld : Loader} {l i : LoadId} {phase : LoadPhase} {x' : Load}
    (h : (ld.setPhase l phase).loads i = some x') :
    ∃ x, ld.loads i = some x ∧ x'.nodeId = x.nodeId ∧
      (i ≠ l ∧ x' = x ∨ i = l ∧ x'.phase = phase) := by
  by_cases hi : i = l
  · subst hi
    have h' : (ld.loads i).map (fun x => { x with phase := phase }) = some x' := by
      simpa [Loader.setPhase] using h
    obtain ⟨x, hx, rfl⟩ := Option.map_eq_some_iff.mp h'
    exact ⟨x, hx, rfl, Or.inr ⟨rfl, rfl⟩⟩
  · have h' : ld.loads i = some x' := by simpa [Loader.setPhase, hi] using h
    exact ⟨x', h', rfl, Or.inl ⟨hi, rfl⟩⟩

theorem setPhase_keeps {ld : Loader} {l i : LoadId} (phase : LoadPhase) {x : Load}
    (h : ld.loads i = some x) :
    ∃ x', (ld.setPhase l phase).loads i = some x' ∧ x'.nodeId = x.nodeId := by
  by_cases hi : i = l
  · exact ⟨{ x with phase := phase }, by simp [Loader.setPhase, ← hi, h], rfl⟩
  · exact ⟨x, by simp [Loader.setPhase, hi, h], rfl⟩

theorem inFlight_of_moves {l : LoadId} {x : Load} {phase : LoadPhase}
    (h : s.LoadMoves lex e l x phase) : x.phase.inFlight = true := by
  cases h with
  | redis reply rest _ _ hphase => rw [hphase]; rfl
  | miss _ hphase => rw [hphase]; rfl
  | db ok clientId _ hphase => rw [hphase]; rfl

theorem inFlight_of_document {p : LoadPhase} {doc : YDoc} (h : p.document = some doc) :
    p.inFlight = true := by
  cases p <;> first | rfl | cases h

/-- What a resumed caller awaited is no longer in flight. -/
theorem not_inFlight_of_awaited {l : LoadId} {x : Load} {first : Bool}
    (hload : s.loader.loads l = some x) (h : s.awaited (.load l first) ≠ none) :
    x.phase.inFlight = false := by
  obtain ⟨n, ws, phase⟩ := x
  cases phase <;> first | rfl | simp [State.awaited, hload] at h

/-- A load of the state after was there before, has moved, has ended, or has just
started. -/
theorem load_of_step (h : step lex s e = some s') {l : LoadId} {x' : Load}
    (hx' : s'.loader.loads l = some x') :
    (∃ x, s.loader.loads l = some x ∧ x.nodeId = x'.nodeId ∧
        (x.phase = x'.phase ∨ s.LoadMoves lex e l x x'.phase ∨ ∃ r, x'.phase = .resolved r)) ∨
      x'.phase = .loadFromRedis := by
  have hkeep : ∀ {ld : Loader}, ld.loads = s.loader.loads → ld.SameLoads s'.loader →
      ∃ x, s.loader.loads l = some x ∧ x.nodeId = x'.nodeId ∧
        (x.phase = x'.phase ∨ s.LoadMoves lex e l x x'.phase ∨ ∃ r, x'.phase = .resolved r) := by
    intro ld hld hsame
    rw [hsame.loads, hld] at hx'
    exact ⟨x', hx', rfl, Or.inl rfl⟩
  cases step_loads h with
  | same hloader _ _ => exact Or.inl (hkeep rfl hloader)
  | ask a n ws hloader _ _ =>
      rcases getOrCreateDoc_cases s n ws with ⟨r, -, -, hld⟩ | ⟨i, -, -, -, hld⟩ |
        ⟨-, -, -, hld⟩
      · exact Or.inl (hkeep (by rw [hld]) hloader)
      · exact Or.inl (hkeep (by rw [hld]) hloader)
      · have hloads : s'.loader.loads = Function.update s.loader.loads s.loader.nextLoad
            (some ⟨n, ws, .loadFromRedis⟩) := by rw [hloader.loads, hld]
        rw [hloads] at hx'
        by_cases hl : l = s.loader.nextLoad
        · rw [hl, Function.update_self] at hx'
          cases hx'
          exact Or.inr rfl
        · rw [Function.update_of_ne hl] at hx'
          exact Or.inl ⟨x', hx', rfl, Or.inl rfl⟩
  | resume a c _ _ hloader _ _ => exact Or.inl (hkeep (by simp) hloader)
  | move i x phase hload hmoves hloader _ _ =>
      rw [hloader.loads] at hx'
      obtain ⟨x₀, hx₀, hnode, ⟨-, rfl⟩ | ⟨rfl, hphase⟩⟩ := setPhase_of_some hx'
      · exact Or.inl ⟨x', hx₀, rfl, Or.inl rfl⟩
      · rw [hload] at hx₀
        cases hx₀
        exact Or.inl ⟨x, hload, hnode.symm, Or.inr (Or.inl (hphase ▸ hmoves))⟩
  | put i x doc ws hload _ _ hloader _ =>
      rw [hloader.loads] at hx'
      obtain ⟨x₀, hx₀, hnode, ⟨-, rfl⟩ | ⟨rfl, hphase⟩⟩ := setPhase_of_some hx'
      · exact Or.inl ⟨x', hx₀, rfl, Or.inl rfl⟩
      · exact Or.inl ⟨x₀, hx₀, hnode.symm, Or.inr (Or.inr ⟨_, hphase⟩)⟩
  | restart hloads _ _ =>
      rw [hloads] at hx'
      cases hx'

namespace LoadInv

variable (hL : LoadInv s)
include hL

/-- The invariant survives when the loads stay, or when one goes on to its next
phase and its node is not in `docs` while it is in flight. -/
private theorem of_phase {l : LoadId} {phase : LoadPhase}
    (hloader : (s.loader.setPhase l phase).SameLoads s'.loader)
    (hawait : ∀ {b c}, s'.awaiting b = some c → s.awaiting b = some c)
    (hin : ∀ {i x}, s.loader.loads i = some x → x.phase.inFlight = true →
      (i ≠ l ∨ phase.inFlight = true) → s'.mem.docs x.nodeId = none)
    (hphase : ∀ {x}, s.loader.loads l = some x → phase.inFlight = true →
      x.phase.inFlight = true) : LoadInv s' where
  load_lt {i x'} hx' := by
    rw [hloader.loads] at hx'
    rw [hloader.nextLoad]
    obtain ⟨x, hx, -⟩ := setPhase_of_some hx'
    exact hL.load_lt hx
  loading {n i} hi := by
    rw [hloader.loading] at hi
    obtain ⟨x, hx, hnode⟩ := hL.loading hi
    obtain ⟨x', hx', hnode'⟩ := setPhase_keeps (l := l) phase hx
    exact ⟨x', by rw [hloader.loads, hx'], hnode'.trans hnode⟩
  first {a n i} ha := by
    rw [hloader.loading]
    exact hL.first (hawait ha)
  unique ha hb := hL.unique (hawait ha) (hawait hb)
  inFlight {i x'} hx' hx'in := by
    rw [hloader.loads] at hx'
    rw [hloader.loading]
    obtain ⟨x, hx, hnode, ⟨hne, rfl⟩ | ⟨rfl, hphase'⟩⟩ := setPhase_of_some hx'
    · exact ⟨(hL.inFlight hx hx'in).1, hin hx hx'in (Or.inl hne)⟩
    · rw [hphase'] at hx'in
      have hxin := hphase hx hx'in
      rw [hnode]
      exact ⟨(hL.inFlight hx hxin).1, hin hx hxin (Or.inr hx'in)⟩

/-- The invariant survives when the loads stay and no caller is to remove an
entry of `loading` that was not to before. -/
private theorem of_same (hloader : s.loader.SameLoads s'.loader)
    (hawait : ∀ {b n l}, s'.awaiting b = some ⟨n, .load l true⟩ →
      s.awaiting b = some ⟨n, .load l true⟩)
    (hdocs : ∀ {n}, s.mem.docs n = none → s'.mem.docs n = none) : LoadInv s' where
  load_lt hx := by
    rw [hloader.loads] at hx
    rw [hloader.nextLoad]
    exact hL.load_lt hx
  loading hl := by
    rw [hloader.loading] at hl
    rw [hloader.loads]
    exact hL.loading hl
  first ha := by
    rw [hloader.loading]
    exact hL.first (hawait ha)
  unique ha hb := hL.unique (hawait ha) (hawait hb)
  inFlight hx hin := by
    rw [hloader.loads] at hx
    rw [hloader.loading]
    exact ⟨(hL.inFlight hx hin).1, hdocs (hL.inFlight hx hin).2⟩

private theorem of_ask {a : ℕ ⊕ TaskId} {n : NodeId} {ws : WorkspaceId}
    (hloader : (s.getOrCreateDoc n ws).1.loader.SameLoads s'.loader)
    (hawait : ∀ {b c}, s'.awaiting b = some c →
      s.awaiting b = some c ∨ b = a ∧ c = ⟨n, (s.getOrCreateDoc n ws).2⟩)
    (hdocs : ∀ {n}, s.mem.docs n = none → s'.mem.docs n = none) : LoadInv s' := by
  rcases getOrCreateDoc_cases s n ws with ⟨r, -, hans, hld⟩ | ⟨l, -, -, hans, hld⟩ |
    ⟨hnone, hfree, hans, hld⟩
  · rw [hld] at hloader
    refine hL.of_same hloader (fun {b m i} hb => ?_) hdocs
    rcases hawait hb with hb | ⟨-, hc⟩
    · exact hb
    · rw [hans] at hc
      cases hc
  · rw [hld] at hloader
    refine hL.of_same hloader (fun {b m i} hb => ?_) hdocs
    rcases hawait hb with hb | ⟨-, hc⟩
    · exact hb
    · rw [hans] at hc
      cases hc
  · rw [hld] at hloader
    have hloads : s'.loader.loads = Function.update s.loader.loads s.loader.nextLoad
        (some ⟨n, ws, .loadFromRedis⟩) := hloader.loads
    have hloading : s'.loader.loading =
        Function.update s.loader.loading n (some s.loader.nextLoad) := hloader.loading
    have hnextLoad : s'.loader.nextLoad = s.loader.nextLoad + 1 := hloader.nextLoad
    have hold : ∀ {i x}, s.loader.loads i = some x → i ≠ s.loader.nextLoad :=
      fun hx => (hL.load_lt hx).ne
    -- an awaiter of the state before removes the entry of another node
    have hother : ∀ {b m i}, s.awaiting b = some ⟨m, .load i true⟩ →
        m ≠ n ∧ i ≠ s.loader.nextLoad := by
      intro b m i hb
      have hm := hL.first hb
      obtain ⟨x, hx, -⟩ := hL.loading hm
      refine ⟨?_, hold hx⟩
      rintro rfl
      rw [hfree] at hm
      cases hm
    refine ⟨?_, ?_, ?_, ?_, ?_⟩
    · intro i x hx
      rw [hloads] at hx
      rw [hnextLoad]
      by_cases hi : i = s.loader.nextLoad
      · exact hi ▸ Nat.lt_succ_self _
      · rw [Function.update_of_ne hi] at hx
        exact (hL.load_lt hx).trans (Nat.lt_succ_self _)
    · intro m i hi
      rw [hloading] at hi
      rw [hloads]
      by_cases hm : m = n
      · subst hm
        rw [Function.update_self] at hi
        cases hi
        exact ⟨_, Function.update_self .., rfl⟩
      · rw [Function.update_of_ne hm] at hi
        obtain ⟨x, hx, hnode⟩ := hL.loading hi
        exact ⟨x, by rw [Function.update_of_ne (hold hx), hx], hnode⟩
    · intro b m i hb
      rw [hloading]
      rcases hawait hb with hb | ⟨-, hc⟩
      · rw [Function.update_of_ne (hother hb).1]
        exact hL.first hb
      · rw [hans] at hc
        cases hc
        exact Function.update_self ..
    · intro b b' m m' i hb hb'
      rcases hawait hb with hb | ⟨rfl, hc⟩ <;> rcases hawait hb' with hb' | ⟨rfl, hc'⟩
      · exact hL.unique hb hb'
      · rw [hans] at hc'
        cases hc'
        exact absurd rfl (hother hb).2
      · rw [hans] at hc
        cases hc
        exact absurd rfl (hother hb').2
      · rfl
    · intro i x hx hin
      rw [hloads] at hx
      rw [hloading]
      by_cases hi : i = s.loader.nextLoad
      · subst hi
        rw [Function.update_self] at hx
        cases hx
        exact ⟨Function.update_self .., hdocs hnone⟩
      · rw [Function.update_of_ne hi] at hx
        obtain ⟨hi', hdocs'⟩ := hL.inFlight hx hin
        have hm : x.nodeId ≠ n := by
          intro hm
          rw [hm, hfree] at hi'
          cases hi'
        exact ⟨by rw [Function.update_of_ne hm, hi'], hdocs hdocs'⟩

private theorem of_resume {a : ℕ ⊕ TaskId} {c : GetCall} (hc : s.awaiting a = some c)
    (hawaited : s.awaited c.await ≠ none)
    (hloader : (s.finishAwait c.nodeId c.await).loader.SameLoads s'.loader)
    (hawait : ∀ {b c}, s'.awaiting b = some c → s.awaiting b = some c ∧ b ≠ a)
    (hdocs : ∀ {n}, s.mem.docs n = none → s'.mem.docs n = none) : LoadInv s' := by
  obtain ⟨hloads, hnextLoad⟩ :
      s'.loader.loads = s.loader.loads ∧ s'.loader.nextLoad = s.loader.nextLoad := by
    rw [hloader.loads, hloader.nextLoad]
    simp
  -- an entry of `loading` stays, unless the caller itself removes it
  have hloading : ∀ m, s'.loader.loading m = s.loader.loading m ∨
      m = c.nodeId ∧ (∃ l, s.awaiting a = some ⟨m, .load l true⟩ ∧
        s.awaited (.load l true) ≠ none) ∧ s'.loader.loading m = none := by
    intro m
    rw [hloader.loading]
    rcases finishAwait_loading s c.nodeId c.await m with hm | ⟨rfl, ⟨l, hl⟩, hm⟩
    · exact Or.inl hm
    · refine Or.inr ⟨rfl, ⟨l, ?_, hl ▸ hawaited⟩, hm⟩
      rw [hc, ← hl]
  refine ⟨?_, ?_, ?_, ?_, ?_⟩
  · intro i x hx
    rw [hloads] at hx
    rw [hnextLoad]
    exact hL.load_lt hx
  · intro m i hi
    rw [hloads]
    rcases hloading m with hm | ⟨-, -, hm⟩
    · rw [hm] at hi
      exact hL.loading hi
    · rw [hm] at hi
      cases hi
  · intro b m i hb
    obtain ⟨hb, hne⟩ := hawait hb
    rcases hloading m with hm | ⟨-, ⟨l, ha, -⟩, -⟩
    · rw [hm]
      exact hL.first hb
    · -- it would remove the same entry
      have hl := hL.first ha
      rw [hL.first hb] at hl
      cases hl
      exact absurd (hL.unique hb ha) hne
  · intro b b' m m' i hb hb'
    exact hL.unique (hawait hb).1 (hawait hb').1
  · intro i x hx hin
    rw [hloads] at hx
    obtain ⟨hi, hnone⟩ := hL.inFlight hx hin
    rcases hloading x.nodeId with hm | ⟨-, ⟨l, ha, hdone⟩, -⟩
    · exact ⟨hm.trans hi, hdocs hnone⟩
    · -- a load that has been awaited is not in flight
      have hl := hL.first ha
      rw [hi] at hl
      cases hl
      rw [not_inFlight_of_awaited hx hdone] at hin
      cases hin

/-- Every step keeps the invariant. -/
theorem step (h : step lex s e = some s') : LoadInv s' := by
  cases step_loads h with
  | same hloader hawait hdocs => exact hL.of_same hloader hawait hdocs
  | ask a n ws hloader hawait hdocs => exact hL.of_ask hloader hawait hdocs
  | resume a c hc hawaited hloader hawait hdocs =>
      exact hL.of_resume hc hawaited hloader hawait hdocs
  | move l x phase hload hmoves hloader hawait hdocs =>
      refine hL.of_phase hloader hawait (fun hx hin _ => hdocs (hL.inFlight hx hin).2) ?_
      intro x' hx' _
      rw [hload] at hx'
      cases hx'
      exact inFlight_of_moves hmoves
  | put l x doc ws hload hdoc hmem hloader hawait =>
      refine hL.of_phase hloader hawait (fun {i x'} hx' hin hne => ?_) (fun _ hin => by cases hin)
      rcases hne with hne | hin'
      · rw [hmem]
        have hnode : x'.nodeId ≠ x.nodeId := by
          intro hnode
          have h₁ := (hL.inFlight hx' hin).1
          rw [hnode, (hL.inFlight hload (inFlight_of_document hdoc)).1] at h₁
          exact hne (Option.some.inj h₁).symm
        show Function.update s.mem.docs x.nodeId (some s.mem.nextRef) x'.nodeId = none
        rw [Function.update_of_ne hnode]
        exact (hL.inFlight hx' hin).2
      · cases hin'
  | restart hloads hloading hawait =>
      exact ⟨by simp [hloads], by simp [hloading], by simp [hawait], by simp [hawait],
        by simp [hloads]⟩

end LoadInv

end AideepWebsocket.DocManager
