import AideepWebsocket.DocManager.Loading
import AideepWebsocket.DocManager.Serial

/-!
# Does the row ever go back?

A flush writes its snapshot to Redis and to the row at the same time, and either
write may fail alone.  `loadDoc` prefers Redis, and the row is overwritten with
whatever the loaded document has become.  So the row goes back when a load takes
a snapshot that lacks something a later flush has brought to the row.

Two reads can do that: a `GET` that answers with a snapshot which a later flush
has superseded (its own `SET` failed), and a read of the row while a transaction
of the node is still under way.  `neverBack` shows that there is no third: in a
run without overlapping saves, in which every load reads a snapshot that no
later flush has superseded, no commit ever removes a change from the row, and
every managed document has all that the row holds.

The invariant relates the places a state can be in.  `Complete s n d` says that
`d` has the row of `n` and every snapshot that is on its way to the row; it holds
of the managed document and of a load that has been answered.  A snapshot in
Redis is complete up to the saves of later flushes (`snapshot_row`,
`snapshot_pending`).
-/

namespace AideepWebsocket.DocManager

open Library

variable {lex : Lexical} {s s' : State} {e : Event}

/-! ### Snapshots in Redis -/

/-- The snapshot that task `w` took of node `n` is in Redis, or on its way. -/
def Snapshot (s : State) (n : NodeId) (state : YDoc) (w : TaskId) : Prop :=
  .set n state w ∈ s.redis.commands ∨ s.redis.store n = some ⟨state, w⟩

/-- The flush of the task has begun, or it never will. -/
def Phase.begun : Phase → Bool
  | .queued | .loadingDoc _ => false
  | _ => true

/-- In this step the flush of task `w` sends the snapshot it has captured. -/
structure SnapshotSent (s : State) (e : Event) (s' : State) (n : NodeId) (state : YDoc)
    (w : TaskId) : Prop where
  event : e = .startTask w ∨ ∃ clientId, e = .resumeAppend w clientId
  docs : ∃ r, s'.mem.docs n = some r ∧ state = (s'.mem.heap r).doc
  task : ∃ entry, s'.queue.task w = some entry ∧ entry.key = n ∧
    entry.payload.phase.begun = true

private theorem State.FlushStep.snapshot (s₀ : State) {t : TaskId} {x : Task}
    {entry : ChainTask NodeId Task} (h : s.FlushStep t x entry.key s')
    (he : e = .startTask t ∨ ∃ clientId, e = .resumeAppend t clientId)
    (htask : s.queue.task t = some entry)
    (hcan : ∀ p : Task, p.stage ≠ .queued → s.queue.CanAdvance entry p)
    {n : NodeId} {state : YDoc} {w : TaskId} (hset : .set n state w ∈ s'.redis.commands) :
    .set n state w ∈ s.redis.commands ∨ SnapshotSent s₀ e s' n state w := by
  have hsent : ∀ {mem : Memory} {r : DocRef} {q : Task} {s₁ : State}, s.mem.SameDocs mem →
      s.mem.docs entry.key = some r → s₁.mem = mem → s₁.queue = s.queue.advance t q →
      q.stage ≠ .queued → q.phase.begun = true →
      SnapshotSent s₀ e s₁ entry.key (s.mem.heap r).doc t := by
    intro mem r q s₁ hmem hdocs hs₁ hqueue hstage hbegun
    refine ⟨he, ⟨r, by rw [hs₁, hmem.docs, hdocs], by rw [hs₁, hmem.doc]⟩,
      { entry with payload := q }, ?_, rfl, hbegun⟩
    rw [hqueue]
    exact PromiseChain.advance_task_self htask (hcan q hstage)
  cases h with
  | notLoaded => exact Or.inl hset
  | skip r mem hdocs hmem _ =>
      rcases List.mem_append.mp hset with hset | hset
      · exact Or.inl hset
      · cases List.mem_singleton.mp hset
        exact Or.inr (hsent hmem hdocs rfl rfl (by simp [Phase.stage]) rfl)
  | throws r mem cmds hdocs hmem hcmds =>
      rcases List.mem_append.mp hset with hset | hset
      · exact Or.inl hset
      · cases hcmds _ hset
        exact Or.inr (hsent hmem hdocs rfl rfl (by simp [Phase.stage]) rfl)
  | save r mem c hdocs hmem =>
      rcases List.mem_append.mp hset with hset | hset
      · exact Or.inl hset
      · cases List.mem_singleton.mp hset
        exact Or.inr (hsent hmem hdocs rfl rfl (by simp [Phase.stage]) rfl)

/-- **The snapshots.**  A snapshot of the state after was there before, or a
flush has just sent it. -/
theorem snapshot_of_step (h : step lex s e = some s') {n : NodeId} {state : YDoc} {w : TaskId}
    (hs : Snapshot s' n state w) : Snapshot s n state w ∨ SnapshotSent s e s' n state w := by
  have hkeep : ∀ {s₁ : State}, s₁.redis.store = s'.redis.store →
      (.set n state w ∈ s'.redis.commands → .set n state w ∈ s₁.redis.commands) →
      Snapshot s₁ n state w := by
    intro s₁ hstore hcmds
    rcases hs with hs | hs
    · exact Or.inl (hcmds hs)
    · exact Or.inr (by rw [hstore, hs])
  have hwork : ∀ {s₁ : State}, s₁.SameWork s' → s₁.redis = s.redis → Snapshot s n state w := by
    intro s₁ hwork hredis
    exact hkeep (by rw [hwork.store, hredis]) fun hset => by
      rw [← hredis]
      exact hwork.sets hset
  have hflush : ∀ {s₁ : State} {t : TaskId} {x : Task} {entry : ChainTask NodeId Task},
      s₁.redis.store = s.redis.store →
      (.set n state w ∈ s₁.redis.commands → .set n state w ∈ s.redis.commands) →
      s₁.FlushStep t x entry.key s' →
      (e = .startTask t ∨ ∃ clientId, e = .resumeAppend t clientId) →
      s₁.queue.task t = some entry →
      (∀ p : Task, p.stage ≠ .queued → s₁.queue.CanAdvance entry p) →
      Snapshot s n state w ∨ SnapshotSent s e s' n state w := by
    intro s₁ t x entry hstore hcmds hflush he htask hcan
    rcases hs with hs | hs
    · rcases hflush.snapshot s he htask hcan hs with hs | hs
      · exact Or.inl (Or.inl (hcmds hs))
      · exact Or.inr hs
    · rw [hflush.stores.2.1, hstore] at hs
      exact Or.inl (Or.inr hs)
  cases step_cases h with
  | schedule _ hsub => exact Or.inl (hkeep (by rw [hsub.redis]) (by rw [hsub.redis]; exact id))
  | submitAppend m ws markdown userId _ hs' =>
      subst hs'
      exact Or.inl hs
  | get m ws _ _ hw => exact Or.inl (hwork hw rfl)
  | resumeGet get c _ _ _ _ hw => exact Or.inl (hwork hw rfl)
  | loadMoved l x phase _ _ _ hw => exact Or.inl (hwork hw rfl)
  | put l x doc ws _ _ _ _ hw => exact Or.inl (hwork hw rfl)
  | edit m r u _ _ _ hw => exact Or.inl (hwork hw rfl)
  | remove _ hw => exact Or.inl (hwork hw rfl)
  | startFlush t entry caller he htask hphase hready _ hfl =>
      refine hflush rfl id hfl (Or.inl he) htask fun p hp => ?_
      have hqueued : entry.payload.stage = .queued := by simp [Task.stage, hphase, Phase.stage]
      exact PromiseChain.canAdvance_of_ready hqueued hready hp
  | startAppend t entry ws await _ _ _ _ _ _ hw => exact Or.inl (hwork hw rfl)
  | appendFailed t clientId entry await failure _ _ _ _ _ _ _ _ _ hw => exact Or.inl (hwork hw rfl)
  | appended t clientId entry await ws markdown userId r result x s₁ he htask hphase _ _ _ _ hw
      _ _ _ hfl =>
      rcases hfl with ⟨-, rfl⟩ | ⟨-, hfl⟩
      · exact Or.inl (hkeep hw.store.symm hw.sets)
      · refine hflush hw.store hw.sets hfl (Or.inr ⟨clientId, he⟩)
          (by rw [hw.queue]; exact htask) fun p hp => ?_
        have hrunning : entry.payload.stage = .running := by
          simp [Task.stage, hphase, Phase.stage]
        exact PromiseChain.canAdvance_of_running hrunning hp
  | continueFlush t entry mem phase _ _ hs' _ =>
      subst hs'
      exact Or.inl hs
  | embedded t entry r persisted job _ _ _ hw => exact Or.inl (hwork hw rfl)
  | returned t entry result s₁ _ _ _ _ hw _ hsub =>
      refine Or.inl (hkeep (by rw [hsub.redis, hw.store]) fun hset => ?_)
      rw [hsub.redis] at hset
      exact hw.sets hset
  | redisSet reply m st t rest _ hcmds hs' =>
      have hrest : ∀ {cmd}, cmd ∈ rest → cmd ∈ s.redis.commands :=
        fun hcmd => hcmds ▸ List.mem_cons_of_mem _ hcmd
      refine Or.inl ?_
      rcases hs with hs | hs
      · exact Or.inl (hrest (by simpa [hs'] using hs))
      · simp only [hs', State.saveToRedisReply_frame] at hs
        split at hs
        · by_cases hn : n = m
          · subst hn
            rw [Function.update_self] at hs
            cases hs
            exact Or.inl (hcmds ▸ List.mem_cons_self ..)
          · rw [Function.update_of_ne hn] at hs
            exact Or.inr hs
        · exact Or.inr hs
  | uncached m store hstore _ hw =>
      refine Or.inl ?_
      rcases hs with hs | hs
      · exact Or.inl (hw.sets hs)
      · rw [hw.store] at hs
        rcases hstore with rfl | rfl
        · exact Or.inr hs
        · by_cases hn : n = m
          · subst hn
            simp at hs
          · exact Or.inr (by simpa [Function.update_of_ne hn] using hs)
  | commit save c reply now row _ _ _ _ _ hs' =>
      rcases hs' with rfl | rfl <;> exact Or.inl (hkeep (by simp) (by simp))
  | saveMoved save c _ hcase =>
      rcases hcase with ⟨-, failure, rfl⟩ | ⟨persisted, -, rfl | rfl⟩ <;>
        exact Or.inl (hkeep (by simp) (by simp))
  | otherWriter nodes hs' _ =>
      subst hs'
      exact Or.inl hs
  | restart _ hs' =>
      subst hs'
      exact Or.inl (hkeep rfl fun hset => by cases hset)

/-- A flush that has begun is not taken back. -/
theorem TaskStep.begun {i : TaskId} {entry : ChainTask NodeId Task} {x : Task}
    (h : TaskStep s e s' i entry x) (hbegun : entry.payload.phase.begun = true) :
    x.phase.begun = true := by
  cases h with
  | stay => exact hbegun
  | load await _ hphase => rw [hphase] at hbegun; cases hbegun
  | fail x f _ _ hphase' _ => rw [hphase']; rfl
  | skip x r p _ _ _ hphase' => rw [hphase']; rfl
  | save x c _ _ _ hphase' => rw [hphase']; rfl
  | refreshReplied r p ok _ => rfl
  | saveReplied r save sv ok f f' _ _ => rfl
  | saveRejected r save sv redis first f _ => rfl
  | refreshed r p _ => rfl
  | saved r save sv p phase _ _ hphase' => rcases hphase' with rfl | ⟨job, rfl⟩ <;> rfl
  | embedded r p job _ => rfl
  | returned result _ => rfl
  | gone _ =>
      unfold State.goneTask
      split
      · exact hbegun
      · rfl
      · rfl

/-! ### The condition -/

/-- A later flush than `w` has brought to the row of `n` something that `state`
lacks, or may still bring it. -/
def Superseded (s : State) (n : NodeId) (state : YDoc) (w : TaskId) : Prop :=
  ∃ i < s.nextSave, ∃ c ∈ s.saves i, c.nodeId = n ∧
    (c.phase.committed = true ∨ c.phase = .updateNodeRow) ∧ w < c.task ∧ ¬ c.state ≤ state

/-- A transaction of `n` is under way that may bring something new to the row. -/
def RowBehind (s : State) (n : NodeId) : Prop :=
  ∃ i < s.nextSave, ∃ c ∈ s.saves i, c.nodeId = n ∧ c.phase = .updateNodeRow ∧
    ¬ (s.row n).any (fun row => c.state ≤ row) = true

/-- The condition on a step: a `GET` does not answer a load with a superseded
snapshot, and the row is not read while a transaction is about to extend it. -/
def ReadsCurrent (s : State) (e : Event) : Prop :=
  match e with
  | .redisReply .ok =>
      match s.redis.commands with
      | .get l :: _ =>
          ∀ x ∈ s.loader.loads l, ∀ cached ∈ s.redis.store x.nodeId,
            ¬ Superseded s x.nodeId cached.state cached.writer
      | _ => True
  | .dbReply l true _ => ∀ x ∈ s.loader.loads l, ¬ RowBehind s x.nodeId
  | _ => True

instance (s : State) (n : NodeId) (state : YDoc) (w : TaskId) :
    Decidable (Superseded s n state w) := by
  unfold Superseded
  infer_instance

instance (s : State) (n : NodeId) : Decidable (RowBehind s n) := by
  unfold RowBehind
  infer_instance

instance (s : State) (e : Event) : Decidable (ReadsCurrent s e) := by
  unfold ReadsCurrent
  split
  · split <;> infer_instance
  · infer_instance
  · infer_instance

/-! ### The invariant of the runs that meet the condition -/

/-- `d` has the row of `n`, and every snapshot that is on its way to it. -/
def Complete (s : State) (n : NodeId) (d : YDoc) : Prop :=
  (∀ row, s.row n = some row → row ≤ d) ∧
    ∀ i c, s.saves i = some c → c.nodeId = n → c.phase = .updateNodeRow → c.state ≤ d

theorem Complete.mono {n : NodeId} {d d' : YDoc} (h : Complete s n d) (hd : d ≤ d') :
    Complete s n d' :=
  ⟨fun row hrow => (h.1 row hrow).trans hd,
    fun i c hc hnode hphase => (h.2 i c hc hnode hphase).trans hd⟩

/-- Only a new save can outgrow a complete document. -/
theorem Complete.of_step (h : step lex s e = some s') {n : NodeId} {d : YDoc}
    (hd : Complete s n d) (hcall : ∀ c, SaveCalled s e s' c → c.nodeId = n → c.state ≤ d) :
    Complete s' n d := by
  refine ⟨fun row hrow => ?_, fun i c hc hnode hphase => ?_⟩
  · rcases row_of_step h hrow with hrow | ⟨i, c, phase, hc, hphase, hnode, rfl, -⟩
    · exact hd.1 row hrow
    · exact hd.2 i c hc hnode hphase
  · rcases transaction_of_step h hc hphase with hc | ⟨-, hcalled⟩
    · exact hd.2 i c hc hnode hphase
    · exact hcall c hcalled hnode

/-- **The invariant**: what the managed documents, the loads, the transactions
and the snapshots have of the row. -/
structure StoreInv (s : State) : Prop where
  docs : ∀ {n r}, s.mem.docs n = some r → Complete s n (s.mem.heap r).doc
  loads : ∀ {l x d}, s.loader.loads l = some x → x.phase.document = some d →
    Complete s x.nodeId d
  transaction_row : ∀ {i c row}, s.saves i = some c → c.phase = .updateNodeRow →
    s.row c.nodeId = some row → row ≤ c.state
  /-- A snapshot has the row, unless a later flush has written it… -/
  snapshot_row : ∀ {n state w row}, Snapshot s n state w → s.row n = some row →
    row ≤ state ∨ ∃ i c, s.saves i = some c ∧ c.nodeId = n ∧ c.phase.committed = true ∧
      w < c.task ∧ row = c.state
  /-- …and what the flushes up to its own are about to write. -/
  snapshot_transaction : ∀ {n state w i c}, Snapshot s n state w → s.saves i = some c →
    c.nodeId = n → c.phase = .updateNodeRow → c.task ≤ w → c.state ≤ state
  snapshot_task : ∀ {n state w}, Snapshot s n state w →
    ∃ entry, s.queue.task w = some entry ∧ entry.key = n ∧ entry.payload.phase.begun = true

theorem storeInv_init {nodes : NodeId → Option NodeRow} : StoreInv (State.init nodes) where
  docs h := by cases h
  loads h := by cases h
  transaction_row h := by cases h
  snapshot_row {n state w row} h := by rcases h with h | h <;> cases h
  snapshot_transaction {n state w i c} h := by rcases h with h | h <;> cases h
  snapshot_task {n state w} h := by rcases h with h | h <;> cases h

namespace StoreInv

variable (hS : StoreInv s)
include hS

private theorem docs_step (hI : Inv s) (h : step lex s e = some s') {n : NodeId} {r : DocRef}
    (hr : s'.mem.docs n = some r) : Complete s' n (s'.mem.heap r).doc := by
  -- a snapshot that is taken now is taken of this document
  have hcall : ∀ c, SaveCalled s e s' c → c.nodeId = n → c.state ≤ (s'.mem.heap r).doc := by
    intro c hcalled hnode
    have hdocs := hcalled.docs
    rw [hnode, hr] at hdocs
    cases hdocs
    exact hcalled.state.le
  have hbefore : Complete s n (s'.mem.heap r).doc := by
    cases step_mem h with
    | same hmem =>
        rw [hmem.docs] at hr
        rw [hmem.doc]
        exact hS.docs hr
    | edit r' u _ hmem =>
        rw [hmem.docs] at hr
        exact (hS.docs hr).mono (hmem.le_doc r)
    | put l x doc ws _ hload hdoc hmem =>
        rw [hmem] at hr ⊢
        by_cases hn : n = x.nodeId
        · subst hn
          rw [show (s.mem.put x.nodeId (ManagedDoc.loaded doc ws)).docs x.nodeId =
            some s.mem.nextRef from Function.update_self ..] at hr
          cases hr
          rw [show (s.mem.put x.nodeId (ManagedDoc.loaded doc ws)).heap s.mem.nextRef =
            ManagedDoc.loaded doc ws from Function.update_self ..]
          exact hS.loads hload hdoc
        · rw [show (s.mem.put x.nodeId (ManagedDoc.loaded doc ws)).docs n = s.mem.docs n from
            Function.update_of_ne hn ..] at hr
          rw [show (s.mem.put x.nodeId (ManagedDoc.loaded doc ws)).heap r = s.mem.heap r from
            Function.update_of_ne (hI.docs_lt hr).ne ..]
          exact hS.docs hr
    | remove hmem =>
        rw [hmem.heap]
        rcases hmem.docs n with hn | hn <;> rw [hn] at hr
        · exact hS.docs hr
        · cases hr
    | saved t entry r' save sv p _ _ _ hmem =>
        rw [hmem.docs] at hr
        rw [hmem.doc]
        exact hS.docs hr
  exact hbefore.of_step h hcall

/-- What a load reads under the condition is complete. -/
private theorem complete_of_moves {l : LoadId} {x : Load} {phase : LoadPhase} {d : YDoc}
    (hI : Inv s) (hload : s.loader.loads l = some x) (hmoves : s.LoadMoves lex e l x phase)
    (hdoc : phase.document = some d) (hG : ReadsCurrent s e) : Complete s x.nodeId d := by
  cases hmoves with
  | redis reply rest he hcmds hphase =>
      have hcached : reply = .ok ∧ ∃ cached, s.redis.store x.nodeId = some cached ∧
          cached.state = d := by
        split at hdoc
        · next hok =>
            cases hstore : s.redis.store x.nodeId with
            | none => simp [hstore, LoadPhase.document] at hdoc
            | some cached =>
                simp only [hstore, Option.map_some, LoadPhase.document, Option.some.injEq] at hdoc
                exact ⟨hok, cached, rfl, hdoc⟩
        · simp [LoadPhase.document] at hdoc
      obtain ⟨rfl, cached, hstore, rfl⟩ := hcached
      have hcurrent : ¬ Superseded s x.nodeId cached.state cached.writer := by
        subst he
        rw [ReadsCurrent, hcmds] at hG
        exact hG x hload cached hstore
      have hle : ∀ {i c}, s.saves i = some c → c.nodeId = x.nodeId →
          (c.phase.committed = true ∨ c.phase = .updateNodeRow) → cached.writer < c.task →
          c.state ≤ cached.state := by
        intro i c hc hnode hphase hlt
        by_contra hle
        exact hcurrent ⟨i, hI.save_lt hc, c, hc, hnode, hphase, hlt, hle⟩
      have hsnap : Snapshot s x.nodeId cached.state cached.writer := Or.inr hstore
      refine ⟨fun row hrow => ?_, fun i c hc hnode hphase => ?_⟩
      · rcases hS.snapshot_row hsnap hrow with hrow | ⟨i, c, hc, hnode, hcommitted, hlt, rfl⟩
        · exact hrow
        · exact hle hc hnode (Or.inl hcommitted) hlt
      · rcases Nat.lt_or_ge cached.writer c.task with hlt | hge
        · exact hle hc hnode (Or.inr hphase) hlt
        · exact hS.snapshot_transaction hsnap hc hnode hphase hge
  | miss _ _ => cases hdoc
  | db ok clientId he hphase =>
      cases ok with
      | false => cases hdoc
      | true =>
          subst he
          have hbehind : ¬ RowBehind s x.nodeId := hG x hload
          have hrow : ∀ row, s.row x.nodeId = some row → row = d := by
            intro row hrow
            obtain ⟨node, hnode, hstate⟩ := Option.bind_eq_some_iff.mp hrow
            simpa [State.loadFromDb, hnode, hstate, LoadPhase.document] using hdoc
          refine ⟨fun row hr => (hrow row hr).le, fun i c hc hnode hphase => ?_⟩
          by_contra hle
          refine hbehind ⟨i, hI.save_lt hc, c, hc, hnode, hphase, fun hany => hle ?_⟩
          obtain ⟨row, hr, hcrow⟩ := (Option.any_eq_true _ _).mp hany
          exact hrow row hr ▸ of_decide_eq_true hcrow

private theorem loads_step (hI : Inv s) (hL' : LoadInv s') (h : step lex s e = some s')
    (hG : ReadsCurrent s e) {l : LoadId} {x' : Load} {d : YDoc}
    (hx' : s'.loader.loads l = some x') (hdoc : x'.phase.document = some d) :
    Complete s' x'.nodeId d := by
  have hcall : ∀ c, SaveCalled s e s' c → c.nodeId = x'.nodeId → c.state ≤ d := by
    -- the node of a load in flight is not in `docs`, so nothing is captured of it
    intro c hcalled hnode
    have hdocs := hcalled.docs
    rw [hnode, (hL'.inFlight hx' (inFlight_of_document hdoc)).2] at hdocs
    cases hdocs
  rcases load_of_step h hx' with ⟨x, hx, hnode, hphase | hmoves | ⟨r, hresolved⟩⟩ | hstarted
  · rw [← hphase] at hdoc
    exact (hnode ▸ hS.loads hx hdoc).of_step h hcall
  · exact (hnode ▸ hS.complete_of_moves hI hx hmoves hdoc hG).of_step h hcall
  · rw [hresolved] at hdoc
    cases hdoc
  · rw [hstarted] at hdoc
    cases hdoc

private theorem transaction_row_step (hI : Inv s) (hserial : SavesSerial s)
    (h : step lex s e = some s') {i : SaveId} {c : SaveCall} {row : YDoc}
    (hc : s'.saves i = some c) (hphase : c.phase = .updateNodeRow)
    (hrow : s'.row c.nodeId = some row) : row ≤ c.state := by
  rcases transaction_of_step h hc hphase with hc₀ | ⟨-, hcalled⟩
  · rcases row_of_step h hrow with hrow | ⟨j, d, phase, hd, hdphase, hnode, rfl, hcommitted, hd'⟩
    · exact hS.transaction_row hc₀ hphase hrow
    · -- the save that has just committed would have been pending beside this one
      have hij := hserial i j c d hc₀ hd hnode.symm (by rw [hphase]; rfl) (by rw [hdphase]; rfl)
      subst hij
      rw [hc] at hd'
      cases hd'
      rw [show phase = .updateNodeRow from hphase] at hcommitted
  · rw [hcalled.state]
    exact (hS.docs_step hI h hcalled.docs).1 row hrow

private theorem snapshot_row_step (hI : Inv s) (h : step lex s e = some s') {n : NodeId}
    {state row : YDoc} {w : TaskId} (hs : Snapshot s' n state w) (hrow : s'.row n = some row) :
    row ≤ state ∨ ∃ i c, s'.saves i = some c ∧ c.nodeId = n ∧ c.phase.committed = true ∧
      w < c.task ∧ row = c.state := by
  rcases snapshot_of_step h hs with hs | hsent
  · rcases row_of_step h hrow with hrow | ⟨i, c, phase, hc, hphase, hnode, rfl, hcommitted, hc'⟩
    · rcases hS.snapshot_row hs hrow with hle | ⟨i, c, hc, hnode, hcommitted, hlt, rfl⟩
      · exact Or.inl hle
      · obtain ⟨phase, hc', hcommitted'⟩ := save_keeps_of_step h hc (hI.save_lt hc)
        exact Or.inr ⟨i, _, hc', hnode, hcommitted' hcommitted, hlt, rfl⟩
    · rcases Nat.lt_or_ge w c.task with hlt | hge
      · exact Or.inr ⟨i, _, hc', hnode, hcommitted, hlt, rfl⟩
      · exact Or.inl (hS.snapshot_transaction hs hc hnode hphase hge)
  · obtain ⟨r, hr, rfl⟩ := hsent.docs
    exact Or.inl ((hS.docs_step hI h hr).1 row hrow)

private theorem snapshot_transaction_step (hI : Inv s) (h : step lex s e = some s') {n : NodeId}
    {state : YDoc} {w : TaskId} {i : SaveId} {c : SaveCall} (hs : Snapshot s' n state w)
    (hc : s'.saves i = some c) (hnode : c.nodeId = n) (hphase : c.phase = .updateNodeRow)
    (hle : c.task ≤ w) : c.state ≤ state := by
  rcases snapshot_of_step h hs with hs | hsent
  · rcases transaction_of_step h hc hphase with hc | ⟨-, hcalled⟩
    · exact hS.snapshot_transaction hs hc hnode hphase hle
    · -- the flush that has just begun is later than any that had begun before
      obtain ⟨entry, hentry, hkey, hbegun⟩ := hS.snapshot_task hs
      obtain ⟨entry₀, hentry₀, hkey₀, hphase₀⟩ := hcalled.before
      rcases Nat.lt_or_eq_of_le hle with hlt | rfl
      · have hstarted : entry.payload.stage ≠ .queued := by
          intro hq
          rw [Task.stage] at hq
          cases hp : entry.payload.phase <;> rw [hp] at hq hbegun <;> cases hq
          cases hbegun
        have hsettled := s.queue.settled_of_lt hentry hstarted hentry₀
          (hkey₀.trans (hnode.trans hkey.symm)) hlt
        rcases hphase₀ with hphase₀ | ⟨await, hphase₀⟩ <;>
          simp [Task.stage, hphase₀, Phase.stage] at hsettled
      · rw [hentry] at hentry₀
        cases hentry₀
        rcases hphase₀ with hphase₀ | ⟨await, hphase₀⟩ <;>
        · rw [hphase₀] at hbegun
          cases hbegun
  · obtain ⟨r, hr, rfl⟩ := hsent.docs
    exact (hS.docs_step hI h hr).2 i c hc hnode hphase

private theorem snapshot_task_step (h : step lex s e = some s') {n : NodeId} {state : YDoc}
    {w : TaskId} (hs : Snapshot s' n state w) : ∃ entry, s'.queue.task w = some entry ∧
      entry.key = n ∧ entry.payload.phase.begun = true := by
  rcases snapshot_of_step h hs with hs | hsent
  · obtain ⟨entry, hentry, hkey, hbegun⟩ := hS.snapshot_task hs
    obtain ⟨entry', hentry', hkey', hstep⟩ := step_task h hentry
    exact ⟨entry', hentry', hkey'.trans hkey, hstep.begun hbegun⟩
  · exact hsent.task

/-- Every step that meets the condition keeps the invariant. -/
theorem step (hI : Inv s) (hL : LoadInv s) (hserial : SavesSerial s)
    (h : step lex s e = some s') (hG : ReadsCurrent s e) : StoreInv s' where
  docs := hS.docs_step hI h
  loads := hS.loads_step hI (hL.step h) h hG
  transaction_row := hS.transaction_row_step hI hserial h
  snapshot_row := hS.snapshot_row_step hI h
  snapshot_transaction := hS.snapshot_transaction_step hI h
  snapshot_task := hS.snapshot_task_step h

end StoreInv

/-! ### The row never goes back -/

/-- The row of a node is only replaced by a state that includes it, and every
managed document includes the row. -/
structure NeverBack (s s' : State) : Prop where
  row : ∀ {n old new}, s.row n = some old → s'.row n = some new → old ≤ new
  docs : ∀ {n r row}, s'.mem.docs n = some r → s'.row n = some row →
    row ≤ (s'.mem.heap r).doc

/-- **The row never goes back**, in every run without overlapping saves whose
loads read no superseded snapshot and no row that a transaction is about to
extend. -/
theorem neverBack (lex : Lexical) (nodes : NodeId → Option NodeRow) (es : List Event)
    (hserial : Along (step lex) (fun _ _ s' => SavesSerial s') (State.init nodes) es)
    (hcurrent : Along (step lex) (fun s e _ => ReadsCurrent s e) (State.init nodes) es) :
    Along (step lex) (fun s _ s' => NeverBack s s') (State.init nodes) es := by
  refine along_of_invariant (I := fun s => Inv s ∧ LoadInv s ∧ SavesSerial s ∧ StoreInv s) ?_
    ⟨inv_init nodes, loadInv_init nodes, by simp [SavesSerial, State.init], storeInv_init⟩
    (hserial.and hcurrent)
  rintro s e s' hstep ⟨hI, hL, hserial, hS⟩ ⟨hserial', hG⟩
  have hS' := hS.step hI hL hserial hstep hG
  refine ⟨⟨hI.step hstep, hL.step hstep, hserial', hS'⟩, ?_, ?_⟩
  · intro n old new hold hnew
    rcases row_of_step hstep hnew with hnew | ⟨i, c, phase, hc, hphase, hnode, rfl, -⟩
    · rw [hold] at hnew
      exact (Option.some.inj hnew).le
    · exact hS.transaction_row hc hphase (hnode ▸ hold)
  · intro n r row hr hrow
    exact (hS'.docs hr).1 row hrow

/-- Two edits are saved; between them the process restarts and the document is
loaded from Redis. -/
def restartedRun : List Event :=
  openNode ++ editAndFlush ⟨{(3, 0)}, ∅⟩ 0 0 ++ flushSaved 0 0 ++
    [.restart, .getOrCreateDoc 1 7, .redisReply .ok, .continueLoad 1, .resumeGet 1,
      .addClient 1 5] ++
    editAndFlush ⟨{(3, 1)}, {(3, 0)}⟩ 1 1 ++ flushSaved 1 1

theorem restartedRun_neverBack :
    (exec (step .plain) (State.init oneNode) restartedRun).isSome = true ∧
      Along (step .plain) (fun s _ s' => NeverBack s s') (State.init oneNode) restartedRun :=
  ⟨by decide +kernel, neverBack .plain oneNode restartedRun
    (along_savesSerial (by decide +kernel)) (by decide +kernel)⟩

/-- A second edit reaches the row, but Redis takes neither its snapshot nor the
one of the flush that follows when the last client leaves.  The document is
evicted, loaded again from Redis, edited, and flushed. -/
def staleRun : List Event :=
  openNode ++ editAndFlush ⟨{(3, 0)}, ∅⟩ 0 0 ++ flushSaved 0 0 ++
    editAndFlush ⟨{(3, 1)}, ∅⟩ 1 1 ++
    [.redisReply .failed, .updateNodeRow 1 .ok 20, .attachmentsSynced 1 true, .continueFlush 1,
      .resumeTask 1, .removeClient 1 5, .startTask 2, .redisReply .failed,
      .updateNodeRow 2 .ok 30, .attachmentsSynced 2 true, .continueFlush 2, .resumeTask 2,
      .fireTimer 2, .getOrCreateDoc 1 7, .redisReply .ok, .continueLoad 1, .resumeGet 1,
      .addClient 1 5] ++
    editAndFlush ⟨{(4, 0)}, ∅⟩ 3 3 ++ [.redisReply .ok]

theorem staleRun_goesBack :
    Along (step .plain) (fun _ _ s' => SavesSerial s') (State.init oneNode)
        (staleRun ++ [.updateNodeRow 3 .ok 40]) ∧
      ¬ Along (step .plain) (fun s _ s' => NeverBack s s') (State.init oneNode)
        (staleRun ++ [.updateNodeRow 3 .ok 40]) := by
  refine ⟨along_savesSerial (by decide +kernel), fun h => ?_⟩
  have hrun : (exec (step .plain) (State.init oneNode) staleRun).any (fun s =>
      (step .plain s (.updateNodeRow 3 .ok 40)).any fun s' =>
        s.row 1 = some ⟨{(3, 0), (3, 1)}, ∅⟩ ∧ s'.row 1 = some ⟨{(3, 0), (4, 0)}, ∅⟩) = true := by
    decide +kernel
  obtain ⟨s, hs, hrun⟩ := (Option.any_eq_true _ _).mp hrun
  obtain ⟨s', hs', hrun⟩ := (Option.any_eq_true _ _).mp hrun
  obtain ⟨hold, hnew⟩ := of_decide_eq_true hrun
  have hback : NeverBack s s' := h.at_step hs hs'
  exact absurd (hback.row hold hnew) (by decide)

end AideepWebsocket.DocManager
