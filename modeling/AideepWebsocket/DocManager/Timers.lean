import AideepWebsocket.DocManager.SingleFlight
import AideepWebsocket.DocManager.Marks

/-!
# Save timers and idle timers

A managed entry holds at most one handle of each kind, and the callbacks refer to
a node id.  Whether the live timers of a node are the ones its entry holds depends
on every operation that sets, overwrites or forgets a handle.

* `TimerStep` — what a step does to the timers, the handles and the clients;
* `NoStray` — the live timers are those the managed entries hold, and an idle
  timer is live only for an entry without clients;
* `Settled` — the steps that respect this: a leave or a join must not meet a live
  idle timer, and `docs.clear()` no timer at all.  `removeClient` overwrites
  `idleTimer` without clearing it, where `scheduleSave` and `getOrCreateDoc` clear
  the handle first; `addClient` does not look at it; and at the end of
  `onModuleDestroy` nothing is cleared.

`along_noStray_iff` says that these are exactly the steps that leave a stray timer
behind.
-/

namespace AideepWebsocket.DocManager

open Library

namespace Memory

variable {m m' m₁ m₂ : Memory}

/-- The timers, and of each entry the handles, the clients and the workspace, are
the same. -/
structure SameEntries (m m' : Memory) : Prop where
  docs : m'.docs = m.docs
  timers : m'.timers = m.timers
  nextTimer : m'.nextTimer = m.nextTimer
  saveTimer : ∀ r, (m'.heap r).saveTimer = (m.heap r).saveTimer
  idleTimer : ∀ r, (m'.heap r).idleTimer = (m.heap r).idleTimer
  clients : ∀ r, (m'.heap r).clients = (m.heap r).clients
  workspaceId : ∀ r, (m'.heap r).workspaceId = (m.heap r).workspaceId

namespace SameEntries

theorem refl (m : Memory) : SameEntries m m :=
  ⟨rfl, rfl, rfl, fun _ => rfl, fun _ => rfl, fun _ => rfl, fun _ => rfl⟩

theorem of_eq (h : m' = m) : SameEntries m m' := h ▸ refl m

theorem trans (h : SameEntries m m₁) (k : SameEntries m₁ m₂) : SameEntries m m₂ where
  docs := k.docs.trans h.docs
  timers := k.timers.trans h.timers
  nextTimer := k.nextTimer.trans h.nextTimer
  saveTimer r := (k.saveTimer r).trans (h.saveTimer r)
  idleTimer r := (k.idleTimer r).trans (h.idleTimer r)
  clients r := (k.clients r).trans (h.clients r)
  workspaceId r := (k.workspaceId r).trans (h.workspaceId r)

end SameEntries

theorem TimerInv.sameEntries (hT : TimerInv m) (h : SameEntries m m') : TimerInv m' :=
  hT.shrink (by rw [h.docs]; exact id) h.nextTimer (by rw [h.timers]; exact id)
    (fun hr => by rw [← h.saveTimer, hr]) fun hr => by rw [← h.idleTimer, hr]

/-- An assignment that leaves these fields alone. -/
theorem sameEntries_modify (m : Memory) (r : DocRef) {f : ManagedDoc → ManagedDoc}
    (hf : ∀ d : ManagedDoc, (f d).saveTimer = d.saveTimer ∧ (f d).idleTimer = d.idleTimer ∧
      (f d).clients = d.clients ∧ (f d).workspaceId = d.workspaceId) :
    SameEntries m (m.modify r f) := by
  have hentry : ∀ q, (m.modify r f).heap q = m.heap q ∨ (m.modify r f).heap q = f (m.heap q) := by
    intro q
    by_cases hq : q = r
    · subst hq
      exact Or.inr (Function.update_self ..)
    · exact Or.inl (Function.update_of_ne hq ..)
  refine ⟨rfl, rfl, rfl, fun q => ?_, fun q => ?_, fun q => ?_, fun q => ?_⟩ <;>
    rcases hentry q with h | h <;> rw [h]
  · exact (hf _).1
  · exact (hf _).2.1
  · exact (hf _).2.2.1
  · exact (hf _).2.2.2

end Memory

variable {lex : Lexical} {s s' : State} {e : Event}

/-- **What a step does to timers, handles and clients.** -/
inductive TimerStep (s : State) (e : Event) (s' : State) : Prop
  | same (h : s.mem.SameEntries s'.mem)
  /-- A caller finds the document, and the idle timer is cancelled. -/
  | reopen (a : ℕ ⊕ TaskId) (n : NodeId) (r : DocRef) (he : e.asks s = some (a, n))
      (hr : s.mem.docs n = some r) (hmem : s'.mem = s.mem.cancelIdle r)
  | addClient (n : NodeId) (k : SocketId) (r : DocRef) (he : e = .addClient n k)
      (hr : s.mem.docs n = some r)
      (hmem : s'.mem = s.mem.modify r fun d => { d with clients := insert k d.clients })
  | removeClient (n : NodeId) (k : SocketId) (r : DocRef) (he : e = .removeClient n k)
      (hr : s.mem.docs n = some r)
      (hmem : s'.mem = (s.removeClient n k).mem)
  | scheduleSave (n : NodeId) (userId : Option UserId) (r : DocRef)
      (he : e = .scheduleSave n userId) (hr : s.mem.docs n = some r)
      (hmem : s'.mem = s.mem.scheduleSave n userId)
  /-- The node has been deleted. -/
  | drop (n : NodeId) (he : e = .cleanupNode n ∨ ∃ t, e = .resumeTask t)
      (hmem : s'.mem = s.mem.drop n)
  | fired (timer : TimerId) (n : NodeId) (he : e = .fireTimer timer)
      (htimer : s.mem.timers timer = some (.save n))
      (hmem : s'.mem = s.mem.clearTimeout (some timer))
  | evict (timer : TimerId) (n : NodeId) (he : e = .fireTimer timer)
      (htimer : s.mem.timers timer = some (.idle n))
      (hmem : s'.mem = (s.mem.clearTimeout (some timer)).evictDoc n)
  | put (l : LoadId) (n : NodeId) (doc : YDoc) (ws : WorkspaceId) (he : e = .continueLoad l)
      (hl : ∃ x, s.loader.loads l = some x ∧ x.nodeId = n ∧ x.phase.inFlight = true)
      (hmem : s'.mem = s.mem.put n (ManagedDoc.loaded doc ws))
  | flush (n : NodeId) (r : DocRef) (m : Memory) (hm : s.mem.SameEntries m)
      (hr : s.mem.docs n = some r) (hmem : (m.startFlush r).SameEntries s'.mem)
  | clear (he : e = .finishDestroy) (hmem : s'.mem = s.mem.clear)
  | restart (he : e = .restart) (hs' : s' = s.restart)

/-- A flush starts from the memory of `s₁`. -/
private theorem timers_flush {s₁ : State} {t : TaskId} {x : Task} {n : NodeId} {r : DocRef}
    {knownMarkdown : Option String} (hmem : s.mem.SameEntries s₁.mem)
    (hr : s₁.mem.docs n = some r) :
    TimerStep s e (s₁.flushDocLocked lex t x n knownMarkdown) := by
  refine .flush n r s₁.mem hmem (by rw [← hmem.docs, hr]) ?_
  rw [mem_flushDocLocked s₁ t x hr knownMarkdown]
  split
  · exact Memory.sameEntries_modify _ r fun _ => ⟨rfl, rfl, rfl, rfl⟩
  · exact .refl _

private theorem timers_startTask {t : TaskId} (h : s.startTask lex t = some s') :
    TimerStep s (.startTask t) s' := by
  obtain ⟨entry, htask, -, -, ⟨caller, -, rfl⟩ | ⟨ws, markdown, userId, hkind, rfl⟩⟩ :=
    State.startTask_cases s h
  · cases hr : s.mem.docs entry.key with
    | none =>
        refine .same (.of_eq ?_)
        rw [State.flushDocLocked, hr]
        rfl
    | some r => exact timers_flush (.refl _) hr
  · have hasks : (Event.startTask t).asks s = some (.inr t, entry.key) := by
      simp [Event.asks, htask, hkind]
    show TimerStep s _ _
    unfold State.getOrCreateDoc
    split
    · next r hr => exact .reopen _ _ r hasks hr rfl
    · split <;> exact .same (.of_eq rfl)

private theorem timers_resumeAppend {t : TaskId} {clientId : ClientId}
    (h : s.resumeAppend lex t clientId = some s') :
    TimerStep s (.resumeAppend t clientId) s' := by
  obtain ⟨entry, await, ws, markdown, userId, -, -, -, hcase⟩ := State.resumeAppend_cases s h
  rcases hcase with ⟨failure, -, rfl⟩ | ⟨r, result, -, -, hcase⟩
  · exact .same (.of_eq (by simp))
  · have hedit : s.mem.SameEntries (s.mem.modify r fun d =>
        { d with doc := applyUpdate (s.mem.heap r).doc result.added }) :=
      Memory.sameEntries_modify _ r fun _ => ⟨rfl, rfl, rfl, rfl⟩
    rcases hcase with ⟨-, rfl⟩ | ⟨r', hr', rfl⟩
    · exact .same hedit
    · have hmark := hedit.trans (Memory.sameEntries_modify _ r'
        (f := fun d => { d with dirtyForEmbed := true, lastEditorUserId := some userId })
        fun _ => ⟨rfl, rfl, rfl, rfl⟩)
      exact timers_flush hmark hr'

private theorem timers_continueFlush {t : TaskId} (h : s.continueFlush t = some s') :
    TimerStep s (.continueFlush t) s' := by
  obtain ⟨entry, -, ⟨result, rfl, -⟩ | ⟨r, save, sv, persisted, -, -, hcase⟩⟩ :=
    State.continueFlush_cases s h
  · exact .same (.of_eq rfl)
  · have hrecord : s.mem.SameEntries (s.mem.modify r fun d =>
        { d with lastSavedStateVector := some sv, lastPersisted := some persisted }) :=
      Memory.sameEntries_modify _ r fun _ => ⟨rfl, rfl, rfl, rfl⟩
    rcases hcase with ⟨-, rfl⟩ | ⟨userId, rfl⟩
    · exact .same hrecord
    · exact .same (hrecord.trans (Memory.sameEntries_modify _ r
        (f := fun d => { d with dirtyForEmbed := false }) fun _ => ⟨rfl, rfl, rfl, rfl⟩))

private theorem timers_resumeTask {t : TaskId} (h : s.resumeTask t = some s') :
    TimerStep s (.resumeTask t) s' := by
  obtain ⟨entry, -, hmem | ⟨-, hmem⟩⟩ := State.mem_resumeTask s h
  · exact .same (.of_eq hmem)
  · exact .drop entry.key (Or.inr ⟨t, rfl⟩) hmem

/-- **Timers**, one step. -/
theorem step_timers (h : step lex s e = some s') : TimerStep s e s' := by
  cases e with
  | getOrCreateDoc n ws =>
      cases h
      show TimerStep s _ ((s.getOrCreateDoc n ws).1.addGet n (s.getOrCreateDoc n ws).2)
      unfold State.getOrCreateDoc
      split
      · next r hr => exact .reopen _ n r rfl hr rfl
      · split <;> exact .same (.of_eq rfl)
  | addClient n socket =>
      cases h
      cases hr : s.mem.docs n with
      | none => exact .same (.of_eq (by simp [Memory.addClient, hr]))
      | some r => exact .addClient n socket r rfl hr (by simp [Memory.addClient, hr])
  | applyToDoc n u =>
      cases h
      cases hr : s.mem.docs n with
      | none => exact .same (.of_eq (by simp [Memory.applyToDoc, hr]))
      | some r =>
          refine .same ?_
          show s.mem.SameEntries (s.mem.applyToDoc n u)
          rw [Memory.applyToDoc, hr]
          exact Memory.sameEntries_modify _ r fun _ => ⟨rfl, rfl, rfl, rfl⟩
  | removeClient n socket =>
      cases h
      cases hr : s.mem.docs n with
      | none => exact .same (.of_eq (by simp [State.removeClient, hr]))
      | some r => exact .removeClient n socket r rfl hr rfl
  | scheduleSave n userId =>
      cases h
      cases hr : s.mem.docs n with
      | none => exact .same (.of_eq (by simp [Memory.scheduleSave, hr]))
      | some r => exact .scheduleSave n userId r rfl hr rfl
  | cleanupNode n =>
      cases h
      exact .drop n (Or.inl rfl) rfl
  | finishDestroy =>
      obtain ⟨call, -, rfl⟩ := State.finishDestroy_cases s h
      exact .clear rfl rfl
  | fireTimer timer =>
      obtain ⟨n, ⟨htimer, rfl⟩ | ⟨htimer, rfl⟩⟩ := State.fireTimer_cases s h
      · exact .fired timer n rfl htimer rfl
      · exact .evict timer n rfl htimer rfl
  | continueLoad l =>
      obtain ⟨x, hload, ⟨-, rfl⟩ | ⟨state, ws, rfl, hcase⟩⟩ := State.continueLoad_cases s h
      · exact .same (.of_eq rfl)
      · have hin : x.phase.inFlight = true := by
          rcases hcase with ⟨hphase, -⟩ | ⟨u, hphase, -⟩ | ⟨hphase | ⟨ws', hphase⟩, -⟩ <;>
            rw [hphase] <;> rfl
        exact .put l _ _ _ rfl ⟨x, hload, rfl, hin⟩ rfl
  | startTask t => exact timers_startTask h
  | resumeAppend t clientId => exact timers_resumeAppend h
  | continueFlush t => exact timers_continueFlush h
  | resumeTask t => exact timers_resumeTask h
  | restart =>
      cases h
      exact .restart rfl rfl
  | _ => exact .same (.of_eq (mem_of_keepsMemory h trivial))

/-! ### Stray timers -/

namespace Memory

variable {m m' : Memory}

/-- The managed entry of the node holds the timer; an idle timer, while nobody has
the document open. -/
def Held (m : Memory) (timer : TimerId) : Timer → Prop
  | .save n => ∃ r, m.docs n = some r ∧ (m.heap r).saveTimer = some timer
  | .idle n => ∃ r, m.docs n = some r ∧ (m.heap r).idleTimer = some timer ∧
      (m.heap r).clients = ∅

/-- **No stray timers.** -/
structure NoStray (m : Memory) : Prop where
  idle_unique : ∀ {n timer timer'}, m.timers timer = some (.idle n) →
    m.timers timer' = some (.idle n) → timer = timer'
  save_unique : ∀ {n timer timer'}, m.timers timer = some (.save n) →
    m.timers timer' = some (.save n) → timer = timer'
  /-- The live timers are the ones that the managed entries hold. -/
  idle_held : ∀ {n timer}, m.timers timer = some (.idle n) →
    ∃ r, m.docs n = some r ∧ (m.heap r).idleTimer = some timer
  save_held : ∀ {n timer}, m.timers timer = some (.save n) →
    ∃ r, m.docs n = some r ∧ (m.heap r).saveTimer = some timer
  /-- No idle timer is live while the document has clients. -/
  idle_alone : ∀ {n r timer}, m.timers timer = some (.idle n) → m.docs n = some r →
    (m.heap r).clients = ∅

theorem NoStray.held (hN : NoStray m) {timer : TimerId} {kind : Timer}
    (h : m.timers timer = some kind) : m.Held timer kind := by
  cases kind with
  | save n => exact hN.save_held h
  | idle n =>
      obtain ⟨r, hr, hidle⟩ := hN.idle_held h
      exact ⟨r, hr, hidle, hN.idle_alone h hr⟩

theorem noStray_of_held (h : ∀ {timer kind}, m.timers timer = some kind → m.Held timer kind) :
    NoStray m where
  idle_unique {n timer timer'} ht ht' := by
    obtain ⟨r, hr, hidle, -⟩ := h ht
    obtain ⟨r', hr', hidle', -⟩ := h ht'
    rw [hr] at hr'
    cases hr'
    rw [hidle] at hidle'
    exact Option.some.inj hidle'
  save_unique {n timer timer'} ht ht' := by
    obtain ⟨r, hr, hsave⟩ := h ht
    obtain ⟨r', hr', hsave'⟩ := h ht'
    rw [hr] at hr'
    cases hr'
    rw [hsave] at hsave'
    exact Option.some.inj hsave'
  idle_held ht := by
    obtain ⟨r, hr, hidle, -⟩ := h ht
    exact ⟨r, hr, hidle⟩
  save_held ht := h ht
  idle_alone {n r timer} ht hr := by
    obtain ⟨r', hr', -, hclients⟩ := h ht
    rw [hr] at hr'
    cases hr'
    exact hclients

/-- The entry that holds a timer holds it still, when it is still managed and its
handles and clients are the same. -/
theorem Held.of_entry {timer : TimerId} {kind : Timer} (h : m.Held timer kind)
    (hentry : ∀ {n r}, m.docs n = some r → (kind = .save n ∧ (m.heap r).saveTimer = some timer ∨
        kind = .idle n ∧ (m.heap r).idleTimer = some timer) →
      m'.docs n = some r ∧ (kind = .save n → (m'.heap r).saveTimer = (m.heap r).saveTimer) ∧
        (kind = .idle n → (m'.heap r).idleTimer = (m.heap r).idleTimer ∧
          ((m.heap r).clients = ∅ → (m'.heap r).clients = ∅))) : m'.Held timer kind := by
  cases kind with
  | save n =>
      obtain ⟨r, hr, hsave⟩ := h
      obtain ⟨hr', hsave', -⟩ := hentry hr (Or.inl ⟨rfl, hsave⟩)
      exact ⟨r, hr', (hsave' rfl).trans hsave⟩
  | idle n =>
      obtain ⟨r, hr, hidle, hclients⟩ := h
      obtain ⟨hr', -, hidle'⟩ := hentry hr (Or.inr ⟨rfl, hidle⟩)
      exact ⟨r, hr', (hidle' rfl).1.trans hidle, (hidle' rfl).2 hclients⟩

theorem NoStray.sameEntries (hN : NoStray m) (h : SameEntries m m') : NoStray m' := by
  refine noStray_of_held fun {timer kind} ht => ?_
  rw [h.timers] at ht
  exact (hN.held ht).of_entry fun hr _ => ⟨by rw [h.docs, hr], fun _ => h.saveTimer _,
    fun _ => ⟨h.idleTimer _, fun hclients => (h.clients _).trans hclients⟩⟩

theorem NoStray.clearTimeout (hN : NoStray m) (cleared : Option TimerId) :
    NoStray (m.clearTimeout cleared) := by
  obtain ⟨hdocs, hheap, -, -⟩ := clearTimeout_rest m cleared
  refine noStray_of_held fun {timer kind} ht => ?_
  rw [clearTimeout_timers] at ht
  split at ht
  · cases ht
  · exact (hN.held ht).of_entry fun hr _ => ⟨by rw [hdocs, hr], fun _ => by rw [hheap],
      fun _ => ⟨by rw [hheap], fun hclients => by rw [hheap, hclients]⟩⟩

/-- The save timer of an entry is cleared, and its handle forgotten. -/
theorem NoStray.startFlush (hN : NoStray m) (r : DocRef) : NoStray (m.startFlush r) := by
  refine noStray_of_held fun {timer kind} ht => ?_
  have htimers : (m.startFlush r).timers = (m.clearTimeout (m.heap r).saveTimer).timers := rfl
  rw [htimers, clearTimeout_timers] at ht
  split at ht
  · cases ht
  · next hne =>
      have hheap : ∀ q, ((m.startFlush r).heap q).idleTimer = (m.heap q).idleTimer ∧
          ((m.startFlush r).heap q).clients = (m.heap q).clients ∧
          (q ≠ r → ((m.startFlush r).heap q).saveTimer = (m.heap q).saveTimer) := by
        intro q
        by_cases hq : q = r
        · subst hq
          simp [Memory.startFlush, modify]
        · simp [Memory.startFlush, modify, hq]
      refine (hN.held ht).of_entry fun {n q} hq hhold => ⟨by simpa using hq, ?_, fun _ =>
        ⟨(hheap q).1, fun hclients => (hheap q).2.1.trans hclients⟩⟩
      rintro rfl
      refine (hheap q).2.2 ?_
      rintro rfl
      rcases hhold with ⟨-, hsave⟩ | ⟨hkind, -⟩
      · exact hne hsave
      · cases hkind

/-- The idle timer of an entry is cancelled. -/
theorem NoStray.cancelIdle (hN : NoStray m) (r : DocRef) : NoStray (m.cancelIdle r) := by
  unfold Memory.cancelIdle
  cases hidle : (m.heap r).idleTimer with
  | none => exact hN
  | some t =>
      refine noStray_of_held fun {timer kind} ht => ?_
      have hlive : (m.clearTimeout (some t)).timers timer = some kind := ht
      rw [clearTimeout_timers] at hlive
      split at hlive
      · cases hlive
      · next hne =>
          refine (hN.held hlive).of_entry fun {n q} hq hhold => ?_
          by_cases hqr : q = r
          · subst hqr
            rcases hhold with ⟨rfl, -⟩ | ⟨-, hidle'⟩
            · exact ⟨hq, fun _ => by simp [modify, Memory.clearTimeout], fun h => by cases h⟩
            · exact absurd (hidle.symm.trans hidle') hne
          · have hsame : ((m.clearTimeout (some t)).modify r fun d =>
                { d with idleTimer := none }).heap q = m.heap q := Function.update_of_ne hqr ..
            exact ⟨hq, fun _ => by rw [hsame], fun _ => ⟨by rw [hsame], fun h => by rw [hsame, h]⟩⟩

theorem docs_drop_of_ne (m : Memory) {n n' : NodeId} (hn : n' ≠ n) :
    (m.drop n).docs n' = m.docs n' := by
  unfold Memory.drop
  cases hr : m.docs n with
  | none => rfl
  | some r => simp [hn]

/-- A node is dropped together with the timers that its entry holds. -/
theorem NoStray.drop (hN : NoStray m) (n : NodeId) : NoStray (m.drop n) := by
  refine noStray_of_held fun {timer kind} ht => ?_
  obtain ⟨hdocs, hheap⟩ := drop_rest m n
  cases hr : m.docs n with
  | none =>
      rw [Memory.drop, hr] at ht ⊢
      exact hN.held ht
  | some r =>
      have hlive : ((m.clearTimeout (m.heap r).saveTimer).clearTimeout
          (m.heap r).idleTimer).timers timer = some kind := by
        rw [Memory.drop, hr] at ht
        exact ht
      rw [clearTimeout_timers, clearTimeout_timers] at hlive
      split at hlive
      · cases hlive
      · next hidle =>
          split at hlive
          · cases hlive
          · next hsave =>
              refine (hN.held hlive).of_entry fun {n' q} hq hhold =>
                ⟨?_, fun _ => by rw [hheap], fun _ => ⟨by rw [hheap], fun h => by rw [hheap, h]⟩⟩
              by_cases hn : n' = n
              · -- the two timers of the entry have been cleared
                subst hn
                rw [hr] at hq
                cases hq
                rcases hhold with ⟨-, h⟩ | ⟨-, h⟩
                · exact absurd h hsave
                · exact absurd h hidle
              · rw [docs_drop_of_ne m hn, hq]

theorem NoStray.evictDoc (hN : NoStray m) (n : NodeId) : NoStray (m.evictDoc n) := by
  rcases m.evictDoc_cases n with ⟨hkept, -⟩ | ⟨hdrop, -⟩
  · rw [hkept]
    exact hN
  · rw [hdrop]
    exact hN.drop n

/-- A node that was not managed gets an entry without timers. -/
theorem NoStray.put (hN : NoStray m) (hlt : ∀ {n r}, m.docs n = some r → r < m.nextRef)
    {n : NodeId} (hn : m.docs n = none) (entry : ManagedDoc) : NoStray (m.put n entry) := by
  refine noStray_of_held fun {timer kind} ht => ?_
  refine (hN.held ht).of_entry fun {n' q} hq _ => ?_
  have hne : n' ≠ n := by
    rintro rfl
    rw [hn] at hq
    cases hq
  have hsame : (m.put n entry).heap q = m.heap q := Function.update_of_ne (hlt hq).ne ..
  refine ⟨?_, fun _ => by rw [hsame], fun _ => ⟨by rw [hsame], fun h => by rw [hsame, h]⟩⟩
  show Function.update m.docs n (some m.nextRef) n' = some q
  rw [Function.update_of_ne hne, hq]

/-- A new timer, for an entry that held no live one of its kind: the timer that it
held has been cleared, or there is none. -/
theorem NoStray.arm (hN : NoStray m)
    (hinj : ∀ {n n' r}, m.docs n = some r → m.docs n' = some r → n = n') {n : NodeId}
    {r : DocRef} (hr : m.docs n = some r) {timer : Timer} {f : ManagedDoc → ManagedDoc}
    (hfree : ∀ t, m.timers t ≠ some timer)
    (hf : (timer = .save n ∧ ∀ d, (f d).saveTimer = some m.nextTimer ∧
        (f d).idleTimer = d.idleTimer ∧ (f d).clients = d.clients) ∨
      timer = .idle n ∧ (m.heap r).clients = ∅ ∧ ∀ d, (f d).saveTimer = d.saveTimer ∧
        (f d).idleTimer = some m.nextTimer ∧ (f d).clients = d.clients) :
    NoStray ((m.setTimeout timer).modify r f) := by
  have hself : ((m.setTimeout timer).modify r f).heap r = f (m.heap r) :=
    Function.update_self ..
  refine noStray_of_held fun {t kind} ht => ?_
  by_cases hnew : t = m.nextTimer
  · subst hnew
    have hupdate : Function.update m.timers m.nextTimer (some timer) m.nextTimer = some kind := ht
    rw [Function.update_self] at hupdate
    cases hupdate
    rcases hf with ⟨rfl, hf⟩ | ⟨rfl, hclients, hf⟩
    · exact ⟨r, hr, by rw [hself, (hf _).1]⟩
    · exact ⟨r, hr, by rw [hself, (hf _).2.1], by rw [hself, (hf _).2.2, hclients]⟩
  · have hlive : m.timers t = some kind := (Function.update_of_ne hnew ..).symm.trans ht
    refine (hN.held hlive).of_entry fun {n' q} hq hhold => ⟨hq, ?_⟩
    by_cases hqr : q = r
    · subst hqr
      obtain rfl := hinj hq hr
      rw [hself]
      have hother : kind ≠ timer := by
        rintro rfl
        exact hfree t hlive
      rcases hf with ⟨rfl, hf⟩ | ⟨rfl, -, hf⟩
      · exact ⟨fun h => absurd h hother, fun _ => ⟨(hf _).2.1, fun h => (hf _).2.2.trans h⟩⟩
      · exact ⟨fun _ => (hf _).1, fun h => absurd h hother⟩
    · have hsame : ((m.setTimeout timer).modify r f).heap q = m.heap q :=
        Function.update_of_ne hqr ..
      rw [hsame]
      exact ⟨fun _ => rfl, fun _ => ⟨rfl, id⟩⟩

/-- `scheduleSave` clears the timer that it replaces. -/
theorem NoStray.scheduleSave (hN : NoStray m)
    (hinj : ∀ {n n' r}, m.docs n = some r → m.docs n' = some r → n = n') {n : NodeId}
    {r : DocRef} (hr : m.docs n = some r) (userId : Option UserId) :
    NoStray (m.scheduleSave n userId) := by
  obtain ⟨hdocs, hheap, hnext, -⟩ := clearTimeout_rest m (m.heap r).saveTimer
  have hfree : ∀ t, (m.clearTimeout (m.heap r).saveTimer).timers t ≠ some (.save n) := by
    intro t ht
    rw [clearTimeout_timers] at ht
    split at ht
    · cases ht
    · next hne =>
        obtain ⟨r', hr', hsave⟩ := hN.save_held ht
        rw [hr] at hr'
        cases hr'
        exact hne hsave
  unfold Memory.scheduleSave
  rw [hr]
  exact (hN.clearTimeout _).arm (by rw [hdocs]; exact hinj)
    (by rw [hdocs]; exact hr) hfree (Or.inl ⟨rfl, fun _ => ⟨by rw [hnext], rfl, rfl⟩⟩)

/-- An idle timer of the node is live. -/
def LiveIdle (m : Memory) (n : NodeId) : Prop :=
  ∃ timer < m.nextTimer, m.timers timer = some (.idle n)

instance (m : Memory) (n : NodeId) : Decidable (m.LiveIdle n) :=
  inferInstanceAs (Decidable (∃ _ < _, _))

theorem liveIdle_of_timers (hT : TimerInv m) {n : NodeId} {timer : TimerId}
    (h : m.timers timer = some (.idle n)) : m.LiveIdle n :=
  ⟨timer, hT.live h, h⟩

end Memory

/-- **The steps that leave no timer behind**: a leave after which the document has
no clients, and a join of a managed node, meet no live idle timer of the node, and
when `onModuleDestroy` clears the map no timer is live. -/
def Event.Tidy (e : Event) (s : State) : Prop :=
  match e with
  | .removeClient n k =>
      ∀ r ∈ s.mem.docs n, (s.mem.heap r).clients.erase k = ∅ → ¬ s.mem.LiveIdle n
  | .addClient n _ => (s.mem.docs n).isSome → ¬ s.mem.LiveIdle n
  | .finishDestroy => ∀ timer < s.mem.nextTimer, s.mem.timers timer = none
  | _ => True

/-- What `removeClient` makes of the memory. -/
theorem mem_removeClient {n : NodeId} {r : DocRef} (hr : s.mem.docs n = some r)
    (k : SocketId) :
    (s.removeClient n k).mem =
      if (s.mem.heap r).clients.erase k = ∅ then
        ((s.mem.modify r fun d => { d with clients := d.clients.erase k }).setTimeout
          (.idle n)).modify r fun d => { d with idleTimer := some s.mem.nextTimer }
      else s.mem.modify r fun d => { d with clients := d.clients.erase k } := by
  have hself : ((s.mem.modify r fun d => { d with clients := d.clients.erase k }).heap r).clients =
      (s.mem.heap r).clients.erase k := by
    simp [Memory.modify]
  unfold State.removeClient
  rw [hr]
  dsimp only
  rw [hself]
  split <;> rfl

/-- A tidy step leaves no timer behind. -/
theorem noStray_of_step (hI : Inv s) (hL : LoadInv s) (hT : s.mem.TimerInv)
    (hN : s.mem.NoStray) (h : step lex s e = some s') (htidy : e.Tidy s) : s'.mem.NoStray := by
  -- the clients of one entry are assigned to
  have hclients : ∀ r (f : ManagedDoc → ManagedDoc), (∀ d : ManagedDoc,
      (f d).saveTimer = d.saveTimer ∧ (f d).idleTimer = d.idleTimer) →
      ((s.mem.heap r).clients = ∅ → (f (s.mem.heap r)).clients = ∅ ∨
        ∀ n, s.mem.docs n = some r → ¬ s.mem.LiveIdle n) → (s.mem.modify r f).NoStray := by
    intro r f hf hempty
    refine Memory.noStray_of_held fun {timer kind} ht => ?_
    have hlive : s.mem.timers timer = some kind := ht
    refine (hN.held hlive).of_entry fun {n q} hq hhold => ⟨hq, ?_⟩
    by_cases hqr : q = r
    · subst hqr
      have hself : (s.mem.modify q f).heap q = f (s.mem.heap q) := Function.update_self ..
      rw [hself]
      refine ⟨fun _ => (hf _).1, fun hkind => ⟨(hf _).2, fun hnone => ?_⟩⟩
      rcases hempty hnone with hstill | hfree
      · exact hstill
      · subst hkind
        exact absurd (Memory.liveIdle_of_timers hT hlive) (hfree n hq)
    · have hsame : (s.mem.modify r f).heap q = s.mem.heap q := Function.update_of_ne hqr ..
      rw [hsame]
      exact ⟨fun _ => rfl, fun _ => ⟨rfl, id⟩⟩
  cases step_timers h with
  | same hsame => exact hN.sameEntries hsame
  | reopen a n r _ hr hmem =>
      rw [hmem]
      exact hN.cancelIdle r
  | addClient n k r he hr hmem =>
      subst he
      rw [hmem]
      refine hclients r _ (fun _ => ⟨rfl, rfl⟩) fun _ => Or.inr fun n' hn' => ?_
      obtain rfl := hI.docs_inj hr hn'
      exact htidy (by simp [hr])
  | removeClient n k r he hr hmem =>
      subst he
      have hleave : (s.mem.modify r fun d => { d with clients := d.clients.erase k }).NoStray :=
        hclients r _ (fun _ => ⟨rfl, rfl⟩) fun hnone => Or.inl (by simp [hnone])
      rw [hmem, mem_removeClient hr k]
      split
      · next hempty =>
          refine hleave.arm hI.docs_inj hr (fun t ht => ?_) (Or.inr ⟨rfl, ?_, fun _ =>
            ⟨rfl, rfl, rfl⟩⟩)
          · exact htidy r hr hempty (Memory.liveIdle_of_timers hT ht)
          · simpa [Memory.modify] using hempty
      · exact hleave
  | scheduleSave n userId r _ hr hmem =>
      rw [hmem]
      exact hN.scheduleSave hI.docs_inj hr userId
  | drop n _ hmem =>
      rw [hmem]
      exact hN.drop n
  | fired timer n _ _ hmem =>
      rw [hmem]
      exact hN.clearTimeout _
  | evict timer n _ _ hmem =>
      rw [hmem]
      exact (hN.clearTimeout _).evictDoc n
  | put l n doc ws _ hl hmem =>
      obtain ⟨x, hx, rfl, hin⟩ := hl
      rw [hmem]
      exact hN.put hI.docs_lt (hL.inFlight hx hin).2 _
  | flush n r m hm hr hmem => exact ((hN.sameEntries hm).startFlush r).sameEntries hmem
  | clear he hmem =>
      subst he
      rw [hmem]
      refine Memory.noStray_of_held fun {timer kind} ht => ?_
      have hlive : s.mem.timers timer = some kind := ht
      rw [htidy timer (hT.live hlive)] at hlive
      cases hlive
  | restart _ hs' =>
      subst hs'
      exact Memory.noStray_of_held fun ht => by cases ht

/-- A step after which no timer is stray was tidy. -/
theorem tidy_of_step (h : step lex s e = some s') (hN : s'.mem.NoStray) :
    e.Tidy s := by
  cases e with
  | removeClient n k =>
      rintro r hr hempty ⟨timer, hlt, hlive⟩
      cases h
      rw [mem_removeClient hr k, if_pos hempty] at hN
      have hnew : timer ≠ s.mem.nextTimer := hlt.ne
      refine hnew (hN.idle_unique (n := n) ?_ ?_)
      · exact (Function.update_of_ne hnew ..).trans hlive
      · exact Function.update_self ..
  | addClient n k =>
      rintro hsome ⟨timer, hlt, hlive⟩
      obtain ⟨r, hr⟩ := Option.isSome_iff_exists.mp hsome
      cases h
      have hmem : s.mem.addClient n k =
          s.mem.modify r fun d => { d with clients := insert k d.clients } := by
        simp [Memory.addClient, hr]
      have hlive' : (s.mem.addClient n k).timers timer = some (.idle n) := by
        rw [hmem]
        exact hlive
      have hnone : ((s.mem.addClient n k).heap r).clients = ∅ :=
        hN.idle_alone hlive' (by rw [hmem]; exact hr)
      rw [hmem] at hnone
      simp [Memory.modify] at hnone
  | finishDestroy =>
      intro timer _
      obtain ⟨call, -, rfl⟩ := State.finishDestroy_cases s h
      refine Option.eq_none_iff_forall_ne_some.mpr fun kind hlive => ?_
      have hheld : s.mem.clear.Held timer kind := hN.held hlive
      cases kind with
      | save n =>
          obtain ⟨r, hr, -⟩ := hheld
          cases hr
      | idle n =>
          obtain ⟨r, hr, -⟩ := hheld
          cases hr
  | _ => trivial

/-! ### Runs -/

/-- **Stray timers, exactly.**  In every run, no timer is stray after any step if
and only if every step is tidy. -/
theorem along_noStray_iff (lex : Lexical) (nodes : NodeId → Option NodeRow) (es : List Event) :
    Along (step lex) (fun _ _ s' => s'.mem.NoStray) (State.init nodes) es ↔
      Along (step lex) (fun s e _ => e.Tidy s) (State.init nodes) es := by
  constructor
  · intro hN
    refine hN.mono_step ?_
    intro s e s' h hN'
    exact tidy_of_step h hN'
  · refine along_of_invariant
      (I := fun s => Inv s ∧ LoadInv s ∧ s.mem.TimerInv ∧ s.mem.NoStray) ?_ ?_
    · rintro s e s' h ⟨hI, hL, hT, hN⟩ htidy
      have hN' := noStray_of_step hI hL hT hN h htidy
      exact ⟨⟨hI.step h, hL.step h, timerInv_of_step hI hT h, hN'⟩, hN'⟩
    · exact ⟨inv_init nodes, loadInv_init nodes,
        Memory.timerInv_of_none (fun _ => rfl) fun _ => rfl,
        Memory.noStray_of_held fun ht => by cases ht⟩

/-- The last client leaves, and its leave is repeated. -/
def leaveTwice : List Event := openNode ++ [.removeClient 1 5, .removeClient 1 5]

/-- The second leave sets a second idle timer, and the entry forgets the first. -/
theorem leaveTwice_strays :
    ¬ Along (step Lexical.plain) (fun _ _ s' => s'.mem.NoStray) (State.init oneNode)
      leaveTwice := by
  intro hN
  have hrun : (exec (step Lexical.plain) (State.init oneNode) leaveTwice).any
      (fun s => decide (s.mem.timers 0 = some (.idle 1) ∧ s.mem.timers 1 = some (.idle 1))) =
        true := by decide +kernel
  obtain ⟨s, hs, hlive⟩ := (Option.any_eq_true _ _).mp hrun
  obtain ⟨hfirst, hsecond⟩ := of_decide_eq_true hlive
  have hlast := hN.state (Memory.noStray_of_held fun ht => by cases ht) hs
  exact absurd (hlast.idle_unique hfirst hsecond) (by decide)

end AideepWebsocket.DocManager
