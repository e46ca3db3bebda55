import AideepWebsocket.DocManager.Updates
import AideepWebsocket.DocManager.Commits
import AideepWebsocket.DocManager.Stores
import AideepWebsocket.DocManager.Skips
import AideepWebsocket.DocManager.FlushSteps
import AideepWebsocket.DocManager.Cleanup
import AideepWebsocket.Yjs.MarkdownYjs

/-!
# Can the content of a document keep it from being stored?

What `flushDocLocked` stores is the encoded `Y.Doc`.  Before it calls `saveToDb` it
derives two more values from the document, the markdown and the input of the attachment
sync, and for both it binds an editor to the document.  A node of a type that the editor
does not know makes the binding throw, and the flush with it: what a client may insert
decides whether the server can save.

* `Lexical.Binds` — `createDocBinding` throws on a node of a type that is not registered;
* `stepWith` — a step in which the exports answer as they like, since a document caches
  what has been read of it, and the next export may read that;
* `FlushBegins`, `FlushStored` — a flush, and that both stores have taken the state that
  it has found;
* `flush_stores_iff` — a flush that ends while the stores work has stored its state
  **exactly if it had nothing to save, or every type in the tree is registered and the
  exports of the document return**, and it can always be brought to its end;
* `append_rejects` — an append does not even come to its flush.

The proof follows one task.  `FlushBegins.opened` says what the first part of a flush
leaves, with the outcome of the two exports; `flushGoes_of_step` what a step does to its
task while the stores work; and `Underway` collects what is known of the flush on the way, so
that at its end both stores have been visited by the state.
-/

namespace AideepWebsocket

open Library

/-- **What is assumed of `@lexical/yjs`**: a document whose tree has a node of a type that
is not registered cannot be bound, and everything that binds it throws.  On other
documents an export may return or throw: the text of a heading throws, for one, if its
`__tag` is none. -/
structure Lexical.Binds (lex : Lexical) (tree : YDoc → List MarkdownYjs.LexicalNode) : Prop where
  toMarkdown : ∀ doc, MarkdownYjs.allRegistered (tree doc) = false → lex.toMarkdown doc = none
  attachmentContent : ∀ doc, MarkdownYjs.allRegistered (tree doc) = false →
    lex.attachmentContent doc = none
  append : ∀ clientId doc markdown, MarkdownYjs.allRegistered (tree doc) = false →
    lex.append clientId doc markdown = none

namespace DocManager

variable {lex : Lexical} {s s' s₁ s₂ : State} {e : Event} {es : List (Lexical × Event)}
  {t : TaskId} {n : NodeId} {d : ManagedDoc}

/-- The exports of a document that a flush asks for return only if the document can be
bound. -/
theorem allRegistered_of_exportsReturn {tree : YDoc → List MarkdownYjs.LexicalNode}
    (hlex : lex.Binds tree) {doc : YDoc} (h : ExportsReturn lex e doc) :
    MarkdownYjs.allRegistered (tree doc) = true := by
  have hcontent : lex.attachmentContent doc ≠ none := by
    unfold ExportsReturn at h
    split at h
    · exact h.2
    · exact h
  by_contra hnot
  exact hcontent (hlex.attachmentContent doc (by simpa using hnot))

/-- An append to a document that cannot be bound rejects, and no flush begins. -/
theorem append_rejects {tree : YDoc → List MarkdownYjs.LexicalNode} (hlex : lex.Binds tree)
    {clientId : ClientId} (h : step lex s (.resumeAppend t clientId) = some s')
    {entry : ChainTask NodeId Task} (htask : s.queue.task t = some entry) {await : Await}
    (hphase : entry.payload.phase = .loadingDoc await) {r : DocRef}
    (hloaded : s.awaited await = some (.ok r))
    (hdoc : MarkdownYjs.allRegistered (tree (s.mem.heap r).doc) = false) :
    s.flushed lex (.resumeAppend t clientId) = none ∧
      ∃ entry' failure, s'.queue.task t = some entry' ∧
        entry'.payload.phase = .settled (.error failure) := by
  obtain ⟨entry₁, await₁, ws, markdown, userId, htask₁, hphase₁, hkind, hcase⟩ :=
    State.resumeAppend_cases s h
  obtain rfl := Option.some.inj (htask.symm.trans htask₁)
  obtain rfl : await = await₁ := by
    rw [hphase] at hphase₁
    cases hphase₁
    rfl
  have hthrows : lex.append clientId (s.mem.heap r).doc markdown = none :=
    hlex.append clientId _ markdown hdoc
  refine ⟨by simp [State.flushed, htask, hphase, hkind, hloaded, hthrows], ?_⟩
  rcases hcase with ⟨failure, -, rfl⟩ | ⟨r₁, result, hloaded₁, happend, -⟩
  · have hrunning : entry.payload.stage = .running := by
      rw [Task.stage, hphase]
      rfl
    refine ⟨_, failure, PromiseChain.advance_task_self ?_
      (PromiseChain.canAdvance_of_running hrunning (by simp [Phase.stage])), rfl⟩
    simpa using htask
  · obtain rfl : r = r₁ := by
      rw [hloaded] at hloaded₁
      cases hloaded₁
      rfl
    rw [hthrows] at happend
    cases happend

/-! ### Flushes -/

/-- One step, with what the exports answer in it. -/
def stepWith (s : State) (p : Lexical × Event) : Option State := step p.1 s p.2

theorem settled_of_stepWith (h : s.Settled t) (hes : exec stepWith s es = some s') :
    s'.Settled t :=
  Reachable.invariant (I := fun s => s.Settled t) ⟨es, hes⟩ h fun _ _ _ hstep hsettled =>
    hsettled.exec (exec_singleton hstep)

theorem inv_of_stepWith {nodes : NodeId → Option NodeRow}
    (h : Reachable stepWith (State.init nodes) s) : Inv s :=
  h.invariant (inv_init nodes) fun _ _ _ hstep hI => hI.step hstep

/-- In this step task `t` begins a flush of node `n`, and finds `d` in `docs`. -/
structure FlushBegins (lex : Lexical) (s : State) (e : Event) (s' : State) (t : TaskId)
    (n : NodeId) (d : ManagedDoc) : Prop where
  step : step lex s e = some s'
  event : e = .startTask t ∨ ∃ clientId, e = .resumeAppend t clientId
  flushed : ∃ p ∈ s.flushed lex e, p.1 = n ∧ p.2.get n = some d

/-- Redis holds the state, written by the task. -/
def State.CachedBy (s : State) (n : NodeId) (t : TaskId) (state : YDoc) : Prop :=
  s.redis.store n = some ⟨state, t⟩

/-- The row holds the state, and a save of the task has brought it there. -/
def State.SavedBy (s : State) (n : NodeId) (t : TaskId) (state : YDoc) : Prop :=
  s.row n = some state ∧ ∃ i < s.nextSave, ∃ c ∈ s.saves i, c.task = t ∧ c.nodeId = n ∧
    c.state = state ∧ c.phase.committed = true

/-- **The flush has stored the state that it has found**: in Redis, and in the row too
unless there was nothing to save. -/
def FlushStored (s : State) (es : List (Lexical × Event)) (t : TaskId) (n : NodeId)
    (d : ManagedDoc) : Prop :=
  Visits stepWith (fun s => s.CachedBy n t d.doc) s es ∧
    (d.unchanged = false → Visits stepWith (fun s => s.SavedBy n t d.doc) s es)

instance (s : State) (n : NodeId) (t : TaskId) (state : YDoc) :
    Decidable (s.CachedBy n t state) := by
  unfold State.CachedBy
  infer_instance

instance (s : State) (n : NodeId) (t : TaskId) (state : YDoc) :
    Decidable (s.SavedBy n t state) := by
  unfold State.SavedBy
  infer_instance

instance (s : State) (es : List (Lexical × Event)) (t : TaskId) (n : NodeId)
    (d : ManagedDoc) : Decidable (FlushStored s es t n d) := by
  unfold FlushStored
  infer_instance

/-! ### How a flush begins -/

/-- What the first part of a flush of `doc` leaves: it refreshes the cache, or an export
has thrown, or both stores have been asked to take the state. -/
inductive Begun (lex : Lexical) (e : Event) (s : State) (t : TaskId) (n : NodeId) (doc : YDoc)
    (unchanged : Bool) : Phase → Prop
  | skip (r : DocRef) (persisted : Persisted) (hunchanged : unchanged = true)
      (hset : .set n doc t ∈ s.redis.commands) :
      Begun lex e s t n doc unchanged (.refreshing r persisted none)
  | throws (hchanged : unchanged = false) (hthrows : ¬ ExportsReturn lex e doc)
      (hsaves : ∀ {i c}, s.saves i = some c → c.task ≠ t) :
      Begun lex e s t n doc unchanged (.settled (.error .lexical))
  | save (r : DocRef) (i : SaveId) (stateVector : StateVector) (c : SaveCall)
      (hchanged : unchanged = false) (hexports : ExportsReturn lex e doc)
      (hset : .set n doc t ∈ s.redis.commands) (hsave : s.saves i = some c)
      (htask : c.task = t) (hnode : c.nodeId = n) (hstate : c.state = doc)
      (hphase : c.phase = .updateNodeRow) :
      Begun lex e s t n doc unchanged (.saving r i stateVector none none)

/-- **The first part of a flush**, with the outcome of the two exports. -/
private theorem begun_of_flushDocLocked (lex : Lexical) (x : Task)
    {knownMarkdown : Option String}
    (hknown : e = .startTask t ∧ knownMarkdown = none ∨
      ∃ clientId markdown, e = .resumeAppend t clientId ∧ knownMarkdown = some markdown)
    {r : DocRef} (hdocs : s.mem.docs n = some r)
    (hsaves : ∀ {i c}, s.saves i = some c → c.task ≠ t) :
    ∃ q : Task, q.stage ≠ .queued ∧
      (s.flushDocLocked lex t x n knownMarkdown).queue = s.queue.advance t q ∧
      Begun lex e (s.flushDocLocked lex t x n knownMarkdown) t n (s.mem.heap r).doc
        (s.mem.heap r).unchanged q.phase ∧
      ∀ cmd ∈ (s.flushDocLocked lex t x n knownMarkdown).redis.commands,
        cmd ∈ s.redis.commands ∨ cmd = .set n (s.mem.heap r).doc t := by
  have hissued : ∀ cmd ∈ s.redis.commands ++ [.set n (s.mem.heap r).doc t],
      cmd ∈ s.redis.commands ∨ cmd = .set n (s.mem.heap r).doc t := fun cmd hcmd =>
    (List.mem_append.mp hcmd).imp_right List.mem_singleton.mp
  -- the markdown is asked for unless it is known
  have hexports : ExportsReturn lex e (s.mem.heap r).doc ↔
      (knownMarkdown.orElse fun _ => lex.toMarkdown (s.mem.heap r).doc) ≠ none ∧
        lex.attachmentContent (s.mem.heap r).doc ≠ none := by
    rcases hknown with ⟨rfl, rfl⟩ | ⟨clientId, markdown, rfl, rfl⟩
    · exact Iff.rfl
    · exact ⟨fun hcontent => ⟨Option.some_ne_none markdown, hcontent⟩, And.right⟩
  unfold State.flushDocLocked
  simp only [hdocs, encodeStateAsUpdate_empty]
  cases hunchanged : (s.mem.heap r).unchanged with
  | true =>
      rw [if_pos rfl]
      exact ⟨_, by simp [Phase.stage], rfl, .skip r _ rfl (by simp [State.issue]), hissued⟩
  | false =>
      rw [if_neg Bool.false_ne_true]
      cases hmarkdown : knownMarkdown.orElse fun _ => lex.toMarkdown (s.mem.heap r).doc with
      | none =>
          exact ⟨_, by simp [Phase.stage], rfl,
            .throws rfl (fun h => (hexports.mp h).1 hmarkdown) hsaves, fun cmd => Or.inl⟩
      | some markdown =>
          cases hcontent : lex.attachmentContent (s.mem.heap r).doc with
          | none =>
              exact ⟨_, by simp [Phase.stage], rfl,
                .throws rfl (fun h => (hexports.mp h).2 hcontent) hsaves, hissued⟩
          | some content =>
              have hreturn : ExportsReturn lex e (s.mem.heap r).doc :=
                hexports.mpr
                  ⟨hmarkdown ▸ Option.some_ne_none _, hcontent ▸ Option.some_ne_none _⟩
              refine ⟨_, by simp [Phase.stage], rfl, ?_, hissued⟩
              exact .save r s.nextSave _ _ rfl hreturn (by simp [State.issue])
                (Function.update_self ..) rfl rfl rfl rfl

/-- Every save and every snapshot belongs to a task whose flush has begun. -/
structure Attributed (s : State) : Prop where
  save : ∀ {i c}, s.saves i = some c →
    ∃ entry, s.queue.task c.task = some entry ∧ entry.payload.phase.begun = true
  snapshot : ∀ {m state w}, Snapshot s m state w →
    ∃ entry, s.queue.task w = some entry ∧ entry.payload.phase.begun = true

theorem attributed_init (nodes : NodeId → Option NodeRow) : Attributed (State.init nodes) where
  save h := by cases h
  snapshot h := by rcases h with h | h <;> cases h

theorem Attributed.step (hA : Attributed s) (h : DocManager.step lex s e = some s') :
    Attributed s' where
  save := by
    intro i c' hc'
    rcases save_of_step h hc' with ⟨c, hc, hsame, -⟩ | ⟨-, hcall⟩
    · obtain ⟨entry, hentry, hbegun⟩ := hA.save hc
      obtain ⟨entry', hentry', -, hnext⟩ := step_task h hentry
      have htask : c'.task = c.task := by rw [hsame]
      exact ⟨entry', by rw [htask, hentry'], hnext.begun hbegun⟩
    · obtain ⟨entry, hentry, -, hphase, -⟩ := hcall.task
      exact ⟨entry, hentry, by rw [hphase]; rfl⟩
  snapshot := by
    intro m state w hs
    rcases snapshot_of_step h hs with hs | hsent
    · obtain ⟨entry, hentry, hbegun⟩ := hA.snapshot hs
      obtain ⟨entry', hentry', -, hnext⟩ := step_task h hentry
      exact ⟨entry', hentry', hnext.begun hbegun⟩
    · obtain ⟨entry, hentry, -, hbegun⟩ := hsent.task
      exact ⟨entry, hentry, hbegun⟩

theorem attributed_of_stepWith {nodes : NodeId → Option NodeRow}
    (h : Reachable stepWith (State.init nodes) s) : Attributed s :=
  h.invariant (attributed_init nodes) fun _ _ _ hstep hA => hA.step hstep

/-- **A flush that begins**: its task is where the first part leaves it, and what it has
sent to Redis is the state that it has found. -/
structure Opened (lex : Lexical) (e : Event) (s : State) (t : TaskId) (n : NodeId) (doc : YDoc)
    (unchanged : Bool) : Prop where
  task : ∃ entry, s.queue.task t = some entry ∧ entry.key = n ∧
    Begun lex e s t n doc unchanged entry.payload.phase
  sent : ∀ {m state}, Snapshot s m state t → m = n ∧ state = doc

/-- **How a flush begins.** -/
theorem FlushBegins.opened (hA : Attributed s) (h : FlushBegins lex s e s' t n d) :
    Opened lex e s' t n d.doc d.unchanged := by
  obtain ⟨hstep, he, ⟨m, mem⟩, hflushed, rfl, hd⟩ := h
  obtain ⟨r, hdocs, rfl⟩ := Option.map_eq_some_iff.mp hd
  have hdocs : mem.docs m = some r := hdocs
  obtain ⟨s₁, x, knownMarkdown, hknown, entry, hentry, rfl, hphase, hcan, hqueue, hsaves, hredis,
    hmem⟩ :=
    flushCalled_of_step hstep he hflushed (Option.ne_none_iff_exists'.mpr ⟨r, hdocs⟩)
  -- the task has not begun, so nothing is its
  have hbefore : entry.payload.phase.begun = false := by
    rcases hphase with hphase | ⟨await, hphase⟩ <;> rw [hphase] <;> rfl
  have hnone : ∀ {w}, (∃ entry₁, s.queue.task w = some entry₁ ∧
      entry₁.payload.phase.begun = true) → w ≠ t := by
    rintro w ⟨entry₁, hentry₁, hbegun⟩ rfl
    obtain rfl : entry = entry₁ := Option.some.inj (hentry.symm.trans hentry₁)
    rw [hbefore] at hbegun
    cases hbegun
  have hown : ∀ {i c}, s₁.saves i = some c → c.task ≠ t := fun hc =>
    hnone (hA.save (hsaves ▸ hc))
  rw [← hmem.docs] at hdocs
  obtain ⟨q, hq, hadvance, hbegun, hcmds⟩ :=
    begun_of_flushDocLocked lex x hknown hdocs hown
  have hflush : s₁.FlushStep t x entry.key (s₁.flushDocLocked lex t x entry.key knownMarkdown) :=
    State.flushDocLocked_step s₁ t x entry.key knownMarkdown
  rw [hmem.doc r] at hbegun hcmds
  rw [hmem.unchanged r] at hbegun
  refine ⟨⟨{ entry with payload := q }, ?_, rfl, hbegun⟩, fun hsent => ?_⟩
  · rw [hadvance, hqueue]
    exact PromiseChain.advance_task_self hentry (hcan q hq)
  · rcases hsent with hset | hcached
    · rcases hcmds _ hset with hset | heq
      · rw [hredis] at hset
        exact absurd rfl (hnone (hA.snapshot (Or.inl hset)))
      · cases heq
        exact ⟨rfl, rfl⟩
    · rw [hflush.stores.2.1, hredis] at hcached
      exact absurd rfl (hnone (hA.snapshot (Or.inr hcached)))

/-! ### The flush on its way -/

/-- Where a flush of `doc` is on its way: `cached` and `saved` say that the state has
been in Redis, and in the row. -/
inductive Storing (s : State) (t : TaskId) (n : NodeId) (doc : YDoc) (unchanged : Bool)
    (cached saved : Prop) : Phase → Prop
  | refreshing (r : DocRef) (persisted : Persisted) (redis : Option Bool)
      (hunchanged : unchanged = true)
      (hredis : redis = none ∧ .set n doc t ∈ s.redis.commands ∨ redis = some true ∧ cached) :
      Storing s t n doc unchanged cached saved (.refreshing r persisted redis)
  | saving (r : DocRef) (i : SaveId) (stateVector : StateVector) (redis : Option Bool)
      (c : SaveCall) (hsave : s.saves i = some c) (htask : c.task = t) (hnode : c.nodeId = n)
      (hstate : c.state = doc)
      (hphase : c.phase = .updateNodeRow ∨
        (∃ persisted, c.phase = .syncNodeAttachments persisted ∨ c.phase = .resolved persisted) ∧
          saved)
      (hredis : redis = none ∧ .set n doc t ∈ s.redis.commands ∨ redis = some true ∧ cached) :
      Storing s t n doc unchanged cached saved (.saving r i stateVector redis none)
  | stored (phase : Phase) (hphase : phase.answeredAll = true) (hcached : cached)
      (hsaved : unchanged = false → saved) : Storing s t n doc unchanged cached saved phase

/-- **A flush on its way** from `s₁`, after the events `es`. -/
structure Underway (s₁ : State) (t : TaskId) (n : NodeId) (doc : YDoc) (unchanged : Bool)
    (es : List (Lexical × Event)) (s : State) : Prop where
  task : ∃ entry, s.queue.task t = some entry ∧ entry.key = n ∧
    Storing s t n doc unchanged (Visits stepWith (fun s => s.CachedBy n t doc) s₁ es)
      (Visits stepWith (fun s => s.SavedBy n t doc) s₁ es) entry.payload.phase
  sent : ∀ {m state}, Snapshot s m state t → m = n ∧ state = doc

section Underway

variable {doc : YDoc} {unchanged : Bool} {phase phase' : Phase} {cached saved cached' saved' : Prop}

theorem Storing.unfailed (h : Storing s t n doc unchanged cached saved phase) :
    phase.unfailed = true := by
  cases h with
  | refreshing r persisted redis _ hredis =>
      rcases hredis with ⟨rfl, -⟩ | ⟨rfl, -⟩ <;> rfl
  | saving r i sv redis c _ _ _ _ _ hredis =>
      rcases hredis with ⟨rfl, -⟩ | ⟨rfl, -⟩ <;> rfl
  | stored phase hphase =>
      cases phase with
      | embedding r persisted job => rfl
      | settled result => rfl
      | returned result => rfl
      | _ => cases hphase

theorem Phase.answered_of_answeredAll (h : phase.answeredAll = true) : phase.answered = phase := by
  cases phase with
  | refreshing r persisted redis => cases h
  | saving r i sv redis failure => cases h
  | _ => rfl

/-- The command that the flush waits for is still on its way, or has been answered. -/
private theorem redis_step {redis : Option Bool} (hcached : cached → cached')
    (hset : .set n doc t ∈ s.redis.commands → .set n doc t ∈ s'.redis.commands ∨
      e = .redisReply .ok ∧ ∃ rest, s.redis.commands = .set n doc t :: rest)
    (hnot : ∀ m state rest, e = .redisReply .ok → s.redis.commands ≠ .set m state t :: rest)
    (hredis : redis = none ∧ .set n doc t ∈ s.redis.commands ∨ redis = some true ∧ cached) :
    redis = none ∧ .set n doc t ∈ s'.redis.commands ∨ redis = some true ∧ cached' := by
  rcases hredis with ⟨hnone, hcmd⟩ | ⟨htrue, hR⟩
  · rcases hset hcmd with hcmd' | ⟨he, rest, hcmds⟩
    · exact Or.inl ⟨hnone, hcmd'⟩
    · exact absurd hcmds (hnot _ _ _ he)
  · exact Or.inr ⟨htrue, hcached hR⟩

/-- **One step of a flush on its way.** -/
private theorem Storing.step (h : Storing s t n doc unchanged cached saved phase)
    (hgoes : FlushGoes s e t phase phase') (hcached : cached → cached') (hsaved : saved → saved')
    (hset : .set n doc t ∈ s.redis.commands → .set n doc t ∈ s'.redis.commands ∨
      e = .redisReply .ok ∧ ∃ rest, s.redis.commands = .set n doc t :: rest)
    (hreply : ∀ m state rest, e = .redisReply .ok → s.redis.commands = .set m state t :: rest →
      cached')
    (hsave : ∀ i c, s.saves i = some c → c.task = t → c.nodeId = n → c.state = doc →
      ∃ phase, s'.saves i = some { c with phase := phase } ∧
        (phase = c.phase ∨ (∃ persisted, phase = .syncNodeAttachments persisted) ∧ saved' ∨
          ∃ persisted, c.phase = .syncNodeAttachments persisted ∧ phase = .resolved persisted)) :
    Storing s' t n doc unchanged cached' saved' phase' := by
  cases h with
  | refreshing r persisted redis hunchanged hredis =>
      cases hgoes with
      | stay _ hnot =>
          exact .refreshing r persisted redis hunchanged (redis_step hcached hset hnot hredis)
      | answered _ m state rest he hcmds =>
          have hR := hreply m state rest he hcmds
          rcases hredis with ⟨rfl, -⟩ | ⟨rfl, -⟩ <;>
            exact .refreshing r persisted (some true) hunchanged (Or.inr ⟨rfl, hR⟩)
      | refreshed _ _ _ hphase =>
          rcases hredis with ⟨hnone, -⟩ | ⟨-, hR⟩
          · cases hnone
          · exact .stored _ hphase (hcached hR) fun hchanged => by
              rw [hunchanged] at hchanged
              cases hchanged
      | ended _ _ hphase => cases hphase
  | saving r i sv redis c hc htask hnode hstate hphase hredis =>
      obtain ⟨next, hc', hnext⟩ := hsave i c hc htask hnode hstate
      have hphase' : next = .updateNodeRow ∨
          (∃ persisted, next = .syncNodeAttachments persisted ∨ next = .resolved persisted) ∧
            saved' := by
        rcases hnext with rfl | ⟨⟨persisted, rfl⟩, hD⟩ | ⟨persisted, hsync, rfl⟩
        · exact hphase.imp_right fun hD => ⟨hD.1, hsaved hD.2⟩
        · exact Or.inr ⟨⟨persisted, Or.inl rfl⟩, hD⟩
        · rcases hphase with hphase | ⟨-, hD⟩
          · rw [hphase] at hsync
            cases hsync
          · exact Or.inr ⟨⟨persisted, Or.inr rfl⟩, hsaved hD⟩
      cases hgoes with
      | stay _ hnot =>
          exact .saving r i sv redis _ hc' htask hnode hstate hphase'
            (redis_step hcached hset hnot hredis)
      | answered _ m state rest he hcmds =>
          have hR := hreply m state rest he hcmds
          rcases hredis with ⟨rfl, -⟩ | ⟨rfl, -⟩ <;>
            exact .saving r i sv (some true) _ hc' htask hnode hstate hphase' (Or.inr ⟨rfl, hR⟩)
      | saved _ _ _ persisted _ hresolved hanswered =>
          rcases hredis with ⟨hnone, -⟩ | ⟨-, hR⟩
          · cases hnone
          · have hD : saved := by
              rcases hphase with hphase | ⟨-, hD⟩
              · rw [hc] at hresolved
                rw [Option.some.inj hresolved] at hphase
                cases hphase
              · exact hD
            exact .stored _ hanswered (hcached hR) fun _ => hsaved hD
      | ended _ _ hphase => cases hphase
  | stored phase hphase hR hD =>
      have hstored : ∀ {p : Phase}, p.answeredAll = true →
          Storing s' t n doc unchanged cached' saved' p :=
        fun hp => .stored _ hp (hcached hR) fun hchanged => hsaved (hD hchanged)
      cases hgoes with
      | stay => exact hstored hphase
      | answered => exact hstored (by rw [Phase.answered_of_answeredAll hphase, hphase])
      | refreshed _ _ _ hphase' => exact hstored hphase'
      | saved _ _ _ _ _ _ hphase' => exact hstored hphase'
      | ended _ _ _ hphase' => exact hstored hphase'

/-- A flush begins once: its task was queued, or awaited its document. -/
private theorem begun_of_event (h : step lex s e = some s')
    (he : e = .startTask t ∨ ∃ clientId, e = .resumeAppend t clientId) :
    ∃ entry, s.queue.task t = some entry ∧ entry.payload.phase.unfailed = false := by
  rcases he with rfl | ⟨clientId, rfl⟩
  · obtain ⟨entry, hentry, hphase, -⟩ := State.startTask_step s h
    exact ⟨entry, hentry, by rw [hphase]; rfl⟩
  · obtain ⟨entry, await, ws, markdown, userId, hentry, hphase, -⟩ := State.resumeAppend_step s h
    exact ⟨entry, hentry, by rw [hphase]; rfl⟩

/-- A command stays on its way until it is answered. -/
private theorem set_of_step (h : step lex s e = some s') (hwork : StoresWork t s e)
    (hset : .set n doc t ∈ s.redis.commands) : .set n doc t ∈ s'.redis.commands ∨
      e = .redisReply .ok ∧ ∃ rest, s.redis.commands = .set n doc t :: rest := by
  cases step_redis h with
  | issued cmds _ hcommands =>
      rw [hcommands]
      exact Or.inl (List.mem_append_left _ hset)
  | replied reply cmd rest he hcmds _ hcommands =>
      subst he
      obtain rfl : reply = .ok := hwork
      rw [hcmds] at hset
      rcases List.mem_cons.mp hset with rfl | hrest
      · exact Or.inr ⟨rfl, rest, hcmds⟩
      · exact Or.inl (hcommands ▸ hrest)
  | expired m _ hcommands =>
      rw [hcommands]
      exact Or.inl hset
  | restart he =>
      subst he
      exact hwork.elim

/-- A command that is answered has been executed. -/
private theorem store_of_redisReply {state : YDoc} {rest : List RedisCommand}
    (h : step lex s (.redisReply .ok) = some s')
    (hcmds : s.redis.commands = .set n state t :: rest) : s'.CachedBy n t state := by
  simp only [step, State.redisReply, hcmds, Option.some.injEq] at h
  subst h
  simp [State.CachedBy, Reply.executed]

/-- **One step of a run in which the stores work.** -/
theorem Underway.step (hU : Underway s₁ t n doc unchanged es s) (hI : Inv s)
    (hes : exec stepWith s₁ es = some s) (h : DocManager.step lex s e = some s')
    (hwork : StoresWork t s e) : Underway s₁ t n doc unchanged (es ++ [(lex, e)]) s' := by
  have hes' : exec stepWith s₁ (es ++ [(lex, e)]) = some s' := by
    rw [exec_concat, hes, Option.bind_some]
    exact h
  obtain ⟨entry, hentry, hkey, hstoring⟩ := hU.task
  obtain ⟨entry', hentry', hkey', hgoes⟩ :=
    flushGoes_of_step h hwork hentry hstoring.unfailed
  refine ⟨⟨entry', hentry', hkey'.trans hkey, ?_⟩, fun hsnapshot => ?_⟩
  · refine hstoring.step hgoes Visits.append Visits.append (set_of_step h hwork) ?_ ?_
    · rintro m state rest rfl hcmds
      obtain ⟨rfl, rfl⟩ := hU.sent (Or.inl (hcmds ▸ List.mem_cons_self ..))
      exact Visits.of_exec hes' (store_of_redisReply h hcmds)
    · intro i c hc htask hnode hstate
      obtain ⟨phase, hc', hnext⟩ := saveGoes_of_step h hwork hc (hI.save_lt hc) htask
      refine ⟨phase, hc', ?_⟩
      cases hnext with
      | stay => exact Or.inl rfl
      | committed persisted _ hrow =>
          refine Or.inr (Or.inl ⟨⟨persisted, rfl⟩, Visits.of_exec hes' ⟨?_, i, ?_, _, hc', ?_⟩⟩)
          · rw [← hnode, ← hstate, hrow]
          · exact (hI.save_lt hc).trans_le (nextSave_le_of_step h)
          · exact ⟨htask, hnode, hstate, rfl⟩
      | synced persisted hphase => exact Or.inr (Or.inr ⟨persisted, hphase, rfl⟩)
  · rcases snapshot_of_step h hsnapshot with hsnapshot | hsent
    · exact hU.sent hsnapshot
    · obtain ⟨entry₀, hentry₀, hphase₀⟩ := begun_of_event h hsent.event
      obtain rfl : entry = entry₀ := Option.some.inj (hentry.symm.trans hentry₀)
      rw [hstoring.unfailed] at hphase₀
      cases hphase₀

/-- **A run in which the stores work.** -/
theorem Underway.exec (hU : Underway s₁ t n doc unchanged [] s₁) (hI : Inv s₁)
    (hes : Library.exec stepWith s₁ es = some s)
    (hwork : Along stepWith (fun s p _ => StoresWork t s p.2) s₁ es) :
    Underway s₁ t n doc unchanged es s ∧ Inv s := by
  refine history_invariant (I := fun es s =>
    Along stepWith (fun s p _ => StoresWork t s p.2) s₁ es →
      Underway s₁ t n doc unchanged es s ∧ Inv s) (fun _ => ⟨hU, hI⟩) ?_ hes hwork
  intro es s p s' hes ih hstep hwork
  obtain ⟨hbefore, hlast⟩ := (along_append hes).mp hwork
  obtain ⟨hU, hI⟩ := ih hbefore
  exact ⟨hU.step hI hes hstep (hlast s' hstep).1, hI.step hstep⟩

/-- A flush that has called the stores is on its way. -/
theorem Opened.underway (hB : Opened lex e s t n doc unchanged)
    (hcalled : unchanged = true ∨ ExportsReturn lex e doc) :
    Underway s t n doc unchanged [] s := by
  obtain ⟨⟨entry, hentry, hkey, hbegun⟩, hsent⟩ := hB
  refine ⟨⟨entry, hentry, hkey, ?_⟩, hsent⟩
  generalize entry.payload.phase = phase at hbegun
  cases hbegun with
  | skip r persisted hunchanged hset =>
      exact .refreshing r persisted none hunchanged (Or.inl ⟨rfl, hset⟩)
  | throws hchanged hthrows =>
      rcases hcalled with hunchanged | hreturn
      · rw [hchanged] at hunchanged
        cases hunchanged
      · exact absurd hreturn hthrows
  | save r i sv c _ _ hset hsave htask hnode hstate hphase =>
      exact .saving r i sv none c hsave htask hnode hstate (Or.inl hphase) (Or.inl ⟨rfl, hset⟩)

/-- A flush whose export has thrown never calls `saveToDb`. -/
private theorem not_savedBy_of_throws (hsettled : s₁.Settled t)
    (hnone : ∀ {i c}, s₁.saves i = some c → c.task ≠ t)
    (hes : exec stepWith s₁ es = some s) : ¬ s.SavedBy n t doc := by
  have hinv : s.Settled t ∧ ∀ {i c}, s.saves i = some c → c.task ≠ t := by
    refine Reachable.invariant (I := fun s => s.Settled t ∧
      ∀ {i c}, s.saves i = some c → c.task ≠ t) ⟨es, hes⟩ ⟨hsettled, hnone⟩ ?_
    rintro s ⟨lex, e⟩ s' hstep ⟨hsettled, hnone⟩
    have hstep : step lex s e = some s' := hstep
    refine ⟨hsettled.exec (exec_singleton hstep), fun {i c'} hc' => ?_⟩
    rcases save_of_step hstep hc' with ⟨c, hc, hsame, -⟩ | ⟨-, hcall⟩
    · have htask : c'.task = c.task := by rw [hsame]
      rw [htask]
      exact hnone hc
    · -- a task that calls `saveToDb` has not settled
      rintro rfl
      obtain ⟨entry, hentry, hstage⟩ := hsettled
      obtain ⟨entry₀, hentry₀, -, hphase⟩ := hcall.before
      obtain rfl : entry = entry₀ := Option.some.inj (hentry.symm.trans hentry₀)
      rcases hphase with hphase | ⟨await, hphase⟩ <;>
        simp [Task.stage, hphase, Phase.stage] at hstage
  rintro ⟨-, i, -, c, hc, htask, -⟩
  exact hinv.2 hc htask

end Underway

/-! ### A flush can be brought to its end -/

/-- There is a continuation in which the stores work and the task settles. -/
def Completes (lex : Lexical) (t : TaskId) (s : State) : Prop :=
  ∃ es s', exec (step lex) s es = some s' ∧
    Along (step lex) (fun s e _ => StoresWork t s e) s es ∧ s'.Settled t

theorem Completes.of_settled (h : s.Settled t) : Completes lex t s :=
  ⟨[], s, rfl, trivial, h⟩

theorem Completes.of_exec {fs : List Event} (hfs : exec (step lex) s fs = some s')
    (hwork : Along (step lex) (fun s e _ => StoresWork t s e) s fs) (hs' : Completes lex t s') :
    Completes lex t s := by
  obtain ⟨gs, s₂, hgs, hwork', hsettled⟩ := hs'
  exact ⟨fs ++ gs, s₂, by rw [exec_append, hfs, Option.bind_some, hgs],
    (along_append hfs).mpr ⟨hwork, hwork'⟩, hsettled⟩

theorem Completes.of_step (h : step lex s e = some s') (hwork : StoresWork t s e)
    (hs' : Completes lex t s') : Completes lex t s := by
  have hes : exec (step lex) s [e] = some s' := by rw [exec_cons, h]; rfl
  exact hs'.of_exec hes fun _ _ => ⟨hwork, trivial⟩

section Completes

variable {entry : ChainTask NodeId Task} {r : DocRef} {i : SaveId} {stateVector : StateVector}
  {c : SaveCall} {persisted : Persisted}

/-- A running task that is advanced is where it has been advanced to. -/
private theorem task_setTask (hentry : s.queue.task t = some entry)
    (hrunning : entry.payload.stage = .running) {x : Task} (hx : x.stage ≠ .queued) :
    (s.setTask t x).queue.task t = some { entry with payload := x } :=
  PromiseChain.advance_task_self hentry (PromiseChain.canAdvance_of_running hrunning hx)

private theorem completes_of_embedding {job : EmbedJob} (hentry : s.queue.task t = some entry)
    (hphase : entry.payload.phase = .embedding r persisted job) : Completes lex t s := by
  have hstep : step lex s (.enqueued t true) = some
      ({ s with embedJobs := s.embedJobs ++ [job] }.setTask t
        { entry.payload with phase := .settled (.ok persisted) }) := by
    simp [step, State.enqueued, hentry, hphase]
  refine .of_step hstep trivial (.of_settled ⟨_, task_setTask (s := { s with
    embedJobs := s.embedJobs ++ [job] }) hentry (by rw [Task.stage, hphase]; rfl) ?_, rfl⟩)
  simp [Phase.stage]

/-- A flush that both stores have answered resumes. -/
private theorem completes_of_continueFlush (hentry : s.queue.task t = some entry)
    (hrunning : entry.payload.stage = .running)
    (henabled : ∃ s', s.continueFlush t = some s') : Completes lex t s := by
  obtain ⟨s', hs'⟩ := henabled
  refine Completes.of_step (e := .continueFlush t) hs' trivial ?_
  obtain ⟨entry₁, mem, phase, hentry₁, rfl, hcase⟩ := State.continueFlush_step s hs'
  obtain rfl : entry = entry₁ := Option.some.inj (hentry.symm.trans hentry₁)
  have hsettles : ∀ {result}, phase = .settled result → Completes lex t
      (({ s with mem := mem } : State).setTask t { entry.payload with phase := phase }) := by
    rintro result rfl
    exact .of_settled ⟨_, task_setTask (s := { s with mem := mem }) hentry hrunning
      (by simp [Phase.stage]), rfl⟩
  rcases hcase with ⟨-, r, p, -, hnext⟩ | ⟨-, -, hnext⟩ | ⟨-, r, save, sv, redis, f, -, hnext⟩ |
    ⟨r, save, sv, p, -, -, -, hnext | ⟨job, rfl⟩⟩
  · exact hsettles hnext
  · exact hsettles hnext
  · exact hsettles hnext
  · exact hsettles hnext
  · exact completes_of_embedding (task_setTask (s := { s with mem := mem }) hentry hrunning
      (by simp [Phase.stage])) rfl

private theorem completes_of_refreshing (hentry : s.queue.task t = some entry)
    (hphase : entry.payload.phase = .refreshing r persisted (some true)) : Completes lex t s := by
  refine completes_of_continueFlush hentry (by rw [Task.stage, hphase]; rfl) ⟨s.settle t
    entry.payload (.ok persisted), ?_⟩
  simp [State.continueFlush, hentry, hphase]

private theorem completes_of_resolved (hentry : s.queue.task t = some entry)
    (hphase : entry.payload.phase = .saving r i stateVector (some true) none)
    (hc : s.saves i = some c) (hresolved : c.phase = .resolved persisted) :
    Completes lex t s := by
  refine completes_of_continueFlush hentry (by rw [Task.stage, hphase]; rfl) ?_
  have hsave : (s.saves i).map SaveCall.phase = some (.resolved persisted) := by
    rw [hc, Option.map_some, hresolved]
  unfold State.continueFlush
  simp only [hentry, hphase, hsave]
  split
  · exact ⟨_, rfl⟩
  · exact ⟨_, rfl⟩

private theorem completes_of_committed (hentry : s.queue.task t = some entry)
    (hphase : entry.payload.phase = .saving r i stateVector (some true) none)
    (hc : s.saves i = some c) (hsync : c.phase = .syncNodeAttachments persisted) :
    Completes lex t s := by
  have hstep : step lex s (.attachmentsSynced i true) =
      some (s.setSave i c (.resolved persisted)) := by
    simp [step, State.attachmentsSynced, hc, hsync]
  exact .of_step hstep rfl
    (completes_of_resolved (s := s.setSave i c (.resolved persisted)) hentry hphase
      (Function.update_self ..) rfl)

private theorem completes_of_pending (hentry : s.queue.task t = some entry)
    (hphase : entry.payload.phase = .saving r i stateVector (some true) none)
    (hc : s.saves i = some c) (hpending : c.phase = .updateNodeRow)
    (hrow : s.nodes c.nodeId ≠ none) : Completes lex t s := by
  obtain ⟨row, hrow⟩ := Option.ne_none_iff_exists'.mp hrow
  have hstep : ∃ nodes persisted, step lex s (.updateNodeRow i .ok 0) =
      some ({ s with nodes := nodes }.setSave i c (.syncNodeAttachments persisted)) :=
    ⟨_, _, by simp [step, State.updateNodeRow, hc, hpending, Reply.executed, hrow]; rfl⟩
  obtain ⟨nodes, persisted, hstep⟩ := hstep
  refine .of_step hstep ⟨rfl, fun c₀ hc₀ _ => ?_⟩
    (completes_of_committed (s := { s with nodes := nodes }.setSave i c
      (.syncNodeAttachments persisted)) hentry hphase (Function.update_self ..) rfl)
  obtain rfl : c = c₀ := Option.some.inj (hc.symm.trans hc₀)
  rw [hrow]
  exact Option.some_ne_none row

end Completes

/-- Redis answers everything that it has been asked. -/
private theorem exists_drained (lex : Lexical) (t : TaskId) (s : State) :
    ∃ es s', exec (step lex) s es = some s' ∧
      Along (step lex) (fun s e _ => StoresWork t s e) s es ∧ s'.redis.commands = [] ∧
      s'.nodes = s.nodes := by
  generalize hcmds : s.redis.commands = cmds
  induction cmds generalizing s with
  | nil => exact ⟨[], s, rfl, trivial, hcmds, rfl⟩
  | cons cmd rest ih =>
      have hstep : ∃ s', step lex s (.redisReply .ok) = some s' ∧ s'.redis.commands = rest ∧
          s'.nodes = s.nodes := by
        simp only [step, State.redisReply, hcmds]
        cases cmd with
        | get l =>
            dsimp only
            split
            · exact ⟨_, rfl, rfl, rfl⟩
            · exact ⟨_, rfl, rfl, rfl⟩
        | set m state w => exact ⟨_, rfl, by simp, by simp⟩
        | del m => exact ⟨_, rfl, rfl, rfl⟩
      obtain ⟨s₁, hs₁, hrest, hnodes⟩ := hstep
      obtain ⟨es, s', hes, hwork, hnil, hnodes'⟩ := ih s₁ hrest
      refine ⟨.redisReply .ok :: es, s', by rw [exec_cons, hs₁, Option.bind_some, hes],
        fun s₂ hs₂ => ?_, hnil, hnodes'.trans hnodes⟩
      obtain rfl : s₁ = s₂ := Option.some.inj (hs₁.symm.trans hs₂)
      exact ⟨rfl, hwork⟩

/-- **A flush on its way can be brought to its end**, as long as its row is there: Redis
answers, then the database does, and the flush resumes. -/
theorem Underway.completes {doc : YDoc} {unchanged : Bool}
    (hU : Underway s₁ t n doc unchanged [] s₁) (hI : Inv s₁)
    (hes : Library.exec stepWith s₁ es = some s)
    (hwork : Along stepWith (fun s p _ => StoresWork t s p.2) s₁ es)
    (hrow : s.nodes n ≠ none) : Completes lex t s := by
  obtain ⟨fs, s', hfs, hdrained, hnil, hnodes⟩ := exists_drained lex t s
  refine .of_exec hfs hdrained ?_
  have hexec : Library.exec stepWith s₁ (es ++ fs.map (Prod.mk lex)) = some s' := by
    rw [exec_append, hes, Option.bind_some, exec_map]
    exact hfs
  obtain ⟨hU', -⟩ := hU.exec hI hexec
    ((along_append hes).mpr ⟨hwork, along_map.mpr hdrained⟩)
  obtain ⟨entry, hentry, -, hstoring⟩ := hU'.task
  -- nothing is on its way to Redis
  have hanswered : ∀ {redis : Option Bool} {cached : Prop},
      redis = none ∧ .set n doc t ∈ s'.redis.commands ∨ redis = some true ∧ cached →
        redis = some true := by
    rintro redis cached (⟨-, hset⟩ | ⟨htrue, -⟩)
    · rw [hnil] at hset
      cases hset
    · exact htrue
  generalize hphase : entry.payload.phase = phase at hstoring
  cases hstoring with
  | refreshing r persisted redis _ hredis =>
      obtain rfl := hanswered hredis
      exact completes_of_refreshing hentry hphase
  | saving r i sv redis c hc _ hnode _ hsave hredis =>
      obtain rfl := hanswered hredis
      rcases hsave with hpending | ⟨⟨persisted, hsync | hresolved⟩, -⟩
      · exact completes_of_pending hentry hphase hc hpending (by rwa [hnode, hnodes])
      · exact completes_of_committed hentry hphase hc hsync
      · exact completes_of_resolved hentry hphase hc hresolved
  | stored _ hstored =>
      cases phase with
      | embedding r persisted job => exact completes_of_embedding hentry hphase
      | settled result => exact .of_settled ⟨entry, hentry, by rw [Task.stage, hphase]; rfl⟩
      | returned result => exact .of_settled ⟨entry, hentry, by rw [Task.stage, hphase]; rfl⟩
      | _ => cases hstored

/-! ### What a flush stores -/

/-- A flush that has been answered has stored its state. -/
theorem Underway.stored {doc : YDoc} {unchanged : Bool}
    (hU : Underway s₁ t n doc unchanged es s) (hsettled : s.Settled t) :
    Visits stepWith (fun s => s.CachedBy n t doc) s₁ es ∧
      (unchanged = false → Visits stepWith (fun s => s.SavedBy n t doc) s₁ es) := by
  obtain ⟨entry, hentry, -, hstoring⟩ := hU.task
  obtain ⟨entry₁, hentry₁, hstage⟩ := hsettled
  obtain rfl : entry = entry₁ := Option.some.inj (hentry.symm.trans hentry₁)
  rw [Task.stage] at hstage
  generalize entry.payload.phase = phase at hstoring hstage
  cases hstoring with
  | refreshing => cases hstage
  | saving => cases hstage
  | stored _ _ hcached hsaved => exact ⟨hcached, hsaved⟩

/-- **A flush with working stores can be brought to its end, and it has then stored its
state exactly if it had nothing to save, or the editor knows every type in the tree and the
exports of the document return.** -/
theorem flush_stores_iff {tree : YDoc → List MarkdownYjs.LexicalNode} (hlex : lex.Binds tree)
    {nodes : NodeId → Option NodeRow} (hs : Reachable stepWith (State.init nodes) s)
    (hbegins : FlushBegins lex s e s₁ t n d) (hes : exec stepWith s₁ es = some s₂)
    (hwork : Along stepWith (fun s p _ => StoresWork t s p.2) s₁ es) :
    (s₂.nodes n ≠ none → ∀ lex', Completes lex' t s₂) ∧
      (s₂.Settled t → (FlushStored s₁ es t n d ↔
        d.unchanged = true ∨
          MarkdownYjs.allRegistered (tree d.doc) = true ∧ ExportsReturn lex e d.doc)) := by
  have hB := hbegins.opened (attributed_of_stepWith hs)
  have hI : Inv s₁ := (inv_of_stepWith hs).step hbegins.step
  -- a document whose exports return has been bound
  by_cases hcalled : d.unchanged = true ∨ ExportsReturn lex e d.doc
  · have hU := hB.underway hcalled
    refine ⟨fun hrow _ => hU.completes hI hes hwork hrow, fun hended =>
      iff_of_true ((hU.exec hI hes hwork).1.stored hended) ?_⟩
    exact hcalled.imp_right fun hreturn => ⟨allRegistered_of_exportsReturn hlex hreturn, hreturn⟩
  · obtain ⟨entry, hentry, -, hbegun⟩ := hB.task
    generalize hphase : entry.payload.phase = phase at hbegun
    cases hbegun with
    | skip r persisted hunchanged => exact absurd (Or.inl hunchanged) hcalled
    | save r i sv call _ hreturn => exact absurd (Or.inr hreturn) hcalled
    | throws hchanged _ hnone =>
        have hsettled : s₁.Settled t := ⟨entry, hentry, by rw [Task.stage, hphase]; rfl⟩
        have hsettled₂ : s₂.Settled t := settled_of_stepWith hsettled hes
        refine ⟨fun _ _ => .of_settled hsettled₂, fun _ => iff_of_false ?_ ?_⟩
        · rintro ⟨-, hsaved⟩
          obtain ⟨pre, -, s₃, hpre, hsavedBy⟩ := hsaved hchanged
          exact not_savedBy_of_throws hsettled hnone hpre hsavedBy
        · exact fun h => hcalled (h.imp_right And.right)

/-! ### A paragraph and a table -/

/-- The tree of the documents below: client `7` has inserted a table, and everybody else a
paragraph. -/
def insertedTree (doc : YDoc) : List MarkdownYjs.LexicalNode :=
  if (7, 0) ∈ doc.structs then [.mk "table" [] []] else [.emptyParagraph]

/-- An editor that binds these documents, and has nothing else to object to. -/
def insertedLexical : Lexical :=
  { Lexical.plain with
    toMarkdown doc := if MarkdownYjs.allRegistered (insertedTree doc) then some "" else none
    attachmentContent doc :=
      if MarkdownYjs.allRegistered (insertedTree doc) then some "{}" else none
    append clientId doc markdown :=
      if MarkdownYjs.allRegistered (insertedTree doc) then
        Lexical.plain.append clientId doc markdown
      else none }

theorem insertedLexical_binds : insertedLexical.Binds insertedTree where
  toMarkdown doc h := by simp [insertedLexical, h]
  attachmentContent doc h := by simp [insertedLexical, h]
  append clientId doc markdown h := by simp [insertedLexical, h]

/-- An edit of the given client, up to the flush that the debounce timer submits. -/
def editedBy (client : ClientId) : List (Lexical × Event) :=
  let events : List Event :=
    openNode ++ [.applyToDoc 1 ⟨{(client, 0)}, ∅⟩, .scheduleSave 1 (some 9), .fireTimer 0]
  events.map (Prod.mk insertedLexical)

/-- Both stores answer the flush, and it resumes. -/
def storesAnswer : List (Lexical × Event) :=
  let events : List Event := [.redisReply .ok, .updateNodeRow 0 .ok 10,
    .attachmentsSynced 0 true, .continueFlush 0, .enqueued 0 true]
  events.map (Prod.mk insertedLexical)

/-- A paragraph is stored. -/
theorem paragraph_stored :
    ∃ s s₁ s₂ d, exec stepWith (State.init oneNode) (editedBy 3) = some s ∧
      FlushBegins insertedLexical s (.startTask 0) s₁ 0 1 d ∧
      exec stepWith s₁ storesAnswer = some s₂ ∧ s₂.Settled 0 ∧
      FlushStored s₁ storesAnswer 0 1 d := by
  have hrun : (exec stepWith (State.init oneNode) (editedBy 3)).any (fun s =>
      (s.mem.get 1).any fun d => (step insertedLexical s (.startTask 0)).any fun s₁ =>
        (exec stepWith s₁ storesAnswer).any fun s₂ =>
          ((s₂.queue.task 0).any fun entry => entry.payload.stage = .settled) &&
          decide ((∃ p ∈ s.flushed insertedLexical (.startTask 0), p.1 = 1 ∧
              p.2.get 1 = some d) ∧
            Along stepWith (fun s p _ => StoresWork 0 s p.2) s₁ storesAnswer ∧
            MarkdownYjs.allRegistered (insertedTree d.doc) = true ∧
            ExportsReturn insertedLexical (.startTask 0) d.doc)) = true := by
    decide +kernel
  obtain ⟨s, hs, hrun⟩ := (Option.any_eq_true _ _).mp hrun
  obtain ⟨d, -, hrun⟩ := (Option.any_eq_true _ _).mp hrun
  obtain ⟨s₁, hs₁, hrun⟩ := (Option.any_eq_true _ _).mp hrun
  obtain ⟨s₂, hs₂, hrun⟩ := (Option.any_eq_true _ _).mp hrun
  rw [Bool.and_eq_true, decide_eq_true_eq] at hrun
  obtain ⟨hsettled, hflushed, hwork, hexports⟩ := hrun
  obtain ⟨entry, hentry, hstage⟩ := (Option.any_eq_true _ _).mp hsettled
  have hbegins : FlushBegins insertedLexical s (.startTask 0) s₁ 0 1 d :=
    ⟨hs₁, Or.inl rfl, hflushed⟩
  have hended : s₂.Settled 0 := ⟨entry, hentry, of_decide_eq_true hstage⟩
  exact ⟨s, s₁, s₂, d, hs, hbegins, hs₂, hended,
    ((flush_stores_iff insertedLexical_binds ⟨_, hs⟩ hbegins hs₂ hwork).2 hended).mpr
      (Or.inr hexports)⟩

/-- A table is not: the flush has settled before a store is asked, and however the run
goes on, it has stored nothing. -/
theorem table_notStored :
    ∃ s s₁ d, exec stepWith (State.init oneNode) (editedBy 7) = some s ∧
      FlushBegins insertedLexical s (.startTask 0) s₁ 0 1 d ∧ s₁.Settled 0 ∧
      s₁.redis.commands = [] ∧ ∀ es s₂, exec stepWith s₁ es = some s₂ →
        ¬ FlushStored s₁ es 0 1 d := by
  have hrun : (exec stepWith (State.init oneNode) (editedBy 7)).any (fun s =>
      (s.mem.get 1).any fun d => (step insertedLexical s (.startTask 0)).any fun s₁ =>
        ((s₁.queue.task 0).any fun entry => entry.payload.stage = .settled) &&
          decide ((∃ p ∈ s.flushed insertedLexical (.startTask 0), p.1 = 1 ∧
              p.2.get 1 = some d) ∧ s₁.redis.commands = [] ∧ s₁.nextSave = 0 ∧
            d.unchanged = false)) = true := by
    decide +kernel
  obtain ⟨s, hs, hrun⟩ := (Option.any_eq_true _ _).mp hrun
  obtain ⟨d, -, hrun⟩ := (Option.any_eq_true _ _).mp hrun
  obtain ⟨s₁, hs₁, hrun⟩ := (Option.any_eq_true _ _).mp hrun
  rw [Bool.and_eq_true, decide_eq_true_eq] at hrun
  obtain ⟨hsettled, hflushed, hcommands, hnext, hchanged⟩ := hrun
  obtain ⟨entry, hentry, hstage⟩ := (Option.any_eq_true _ _).mp hsettled
  have hended : s₁.Settled 0 := ⟨entry, hentry, of_decide_eq_true hstage⟩
  have hI : Inv s₁ := (inv_of_stepWith ⟨_, hs⟩).step hs₁
  -- no save has been called at all
  have hnone : ∀ {i c}, s₁.saves i = some c → c.task ≠ 0 := fun hc =>
    absurd (hI.save_lt hc) (by rw [hnext]; exact Nat.not_lt_zero _)
  refine ⟨s, s₁, d, hs, ⟨hs₁, Or.inl rfl, hflushed⟩, hended, hcommands, ?_⟩
  rintro es s₂ - ⟨-, hsaved⟩
  obtain ⟨pre, -, s₃, hpre, hsavedBy⟩ := hsaved hchanged
  exact not_savedBy_of_throws hended hnone hpre hsavedBy

end DocManager

end AideepWebsocket
