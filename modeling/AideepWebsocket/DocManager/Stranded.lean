import AideepWebsocket.DocManager.Timers

/-!
# Stranded documents

An entry without clients leaves `docs` only when an idle timer of its node fires.
`Stranded` says that there is such an entry and no such timer: nothing will evict
the document, and every `flushAll` goes on flushing it.

Documents become stranded in one way only (`stranded_of_step`): a caller of
`getOrCreateDoc` cancels the idle timer, or its load puts the entry into `docs`.
Then this caller, or another one, is still there (`Called`), so the question is
what the last of them leaves behind.
-/

namespace AideepWebsocket.DocManager

open Library

variable {lex : Lexical} {s s' : State} {e : Event} {n : NodeId}

/-- The node is managed and has no clients, and no live timer will evict it. -/
def State.Stranded (s : State) (n : NodeId) : Prop :=
  ∃ r, s.mem.docs n = some r ∧ (s.mem.heap r).clients = ∅ ∧
    ∀ timer, s.mem.timers timer ≠ some (.idle n)

/-- The append has been called, and its caller has not resumed. -/
def Task.appending (x : Task) : Bool :=
  match x.kind, x.phase with
  | .flushDoc _, _ => false
  | .appendMarkdown _ _ _, .returned _ => false
  | .appendMarkdown _ _ _, _ => true

/-- A call of `getOrCreateDoc` or of `appendMarkdown` on the node is running. -/
def State.Called (s : State) (n : NodeId) : Prop :=
  (∃ a c, s.awaiting a = some c ∧ c.nodeId = n) ∨
    ∃ t entry, s.queue.task t = some entry ∧ entry.key = n ∧ entry.payload.appending = true

/-- No caller is suspended, and every task has returned. -/
def State.Resting (s : State) : Prop :=
  (∀ get < s.loader.nextGet, s.loader.gets get = none) ∧
    ∀ t < s.queue.next, ∀ entry ∈ s.queue.task t, entry.payload.phase.stage = .settled ∧
      entry.payload.appending = false

instance (s : State) : Decidable s.Resting := by
  unfold State.Resting
  infer_instance

theorem not_called_of_resting (hF : FlightInv s) (h : s.Resting) : ¬ s.Called n := by
  rintro (⟨a, c, ha, -⟩ | ⟨t, entry, hentry, -, happending⟩)
  · cases a with
    | inl get =>
        have hget : s.loader.gets get = some c := ha
        rw [h.1 get (hF.called ha)] at hget
        cases hget
    | inr t =>
        obtain ⟨entry, hentry, hphase, -⟩ := awaiting_task ha
        have hstage := (h.2 t (s.queue.lt_next hentry) entry hentry).1
        rw [hphase] at hstage
        cases hstage
  · rw [(h.2 t (s.queue.lt_next hentry) entry hentry).2] at happending
    cases happending

/-! ### How a document becomes stranded -/

/-- A document stays stranded backwards in time, as long as its entry and its
clients are the ones of before and no idle timer of the node has been lost. -/
private theorem State.Stranded.back (h : s'.Stranded n)
    (hentry : ∀ {r}, s'.mem.docs n = some r → (s'.mem.heap r).clients = ∅ →
      s.mem.docs n = some r ∧ (s.mem.heap r).clients = ∅)
    (htimers : ∀ {timer}, s.mem.timers timer = some (.idle n) →
      s'.mem.timers timer = some (.idle n)) : s.Stranded n := by
  obtain ⟨r, hr, hclients, htimer⟩ := h
  obtain ⟨hr', hclients'⟩ := hentry hr hclients
  exact ⟨r, hr', hclients', fun timer ht => htimer timer (htimers ht)⟩

/-- Clearing a handle of another kind, or of another node, keeps the idle timers. -/
private theorem idle_clearTimeout {m : Memory} {cleared : Option TimerId} {timer : TimerId}
    (hne : ∀ {t kind}, cleared = some t → m.timers t = some kind → kind ≠ .idle n)
    (h : m.timers timer = some (.idle n)) :
    (m.clearTimeout cleared).timers timer = some (.idle n) := by
  rw [Memory.clearTimeout_timers, if_neg]
  · exact h
  · intro hcleared
    exact hne hcleared h rfl

private theorem idle_drop {m : Memory} (hT : m.TimerInv) {n' : NodeId} (hn : n ≠ n')
    {timer : TimerId} (h : m.timers timer = some (.idle n)) :
    (m.drop n').timers timer = some (.idle n) := by
  unfold Memory.drop
  cases hr : m.docs n' with
  | none => exact h
  | some r =>
      refine idle_clearTimeout (m := m.clearTimeout (m.heap r).saveTimer) ?_
        (idle_clearTimeout ?_ h)
      · intro t kind hidle hlive hkind
        rw [Memory.clearTimeout_timers] at hlive
        split at hlive
        · cases hlive
        · rw [hT.idle hr hidle hlive] at hkind
          exact hn (Timer.idle.inj hkind).symm
      · intro t kind hsave hlive hkind
        rw [hT.save hr hsave hlive] at hkind
        cases hkind

/-- The clients of an assigned entry. -/
private theorem clients_modify {m : Memory} {q r : DocRef} {f : ManagedDoc → ManagedDoc} :
    ((m.modify r f).heap q).clients =
      if q = r then (f (m.heap r)).clients else (m.heap q).clients := by
  by_cases hq : q = r
  · subst hq
    rw [if_pos rfl]
    exact congrArg ManagedDoc.clients (Function.update_self ..)
  · rw [if_neg hq]
    exact congrArg ManagedDoc.clients (Function.update_of_ne hq ..)

private theorem cancelIdle_rest (m : Memory) (r : DocRef) :
    (m.cancelIdle r).docs = m.docs ∧
      (∀ q, ((m.cancelIdle r).heap q).clients = (m.heap q).clients) ∧
      (m.cancelIdle r).timers = (m.clearTimeout (m.heap r).idleTimer).timers := by
  unfold Memory.cancelIdle
  cases (m.heap r).idleTimer with
  | none => exact ⟨rfl, fun _ => rfl, rfl⟩
  | some t =>
      refine ⟨rfl, fun q => ?_, rfl⟩
      show (((m.clearTimeout (some t)).modify r fun d => { d with idleTimer := none }).heap q).clients
        = (m.heap q).clients
      rw [clients_modify]
      split
      · next hq => rw [hq]; rfl
      · rfl

private theorem clients_startFlush (m : Memory) (r q : DocRef) :
    ((m.startFlush r).heap q).clients = (m.heap q).clients := by
  obtain ⟨-, hheap, -, -⟩ := Memory.clearTimeout_rest m (m.heap r).saveTimer
  unfold Memory.startFlush
  rw [clients_modify]
  split
  · next hq => rw [hq, hheap]
  · rw [hheap]

private theorem clients_scheduleSave (m : Memory) (m' : NodeId) (userId : Option UserId)
    (q : DocRef) : ((m.scheduleSave m' userId).heap q).clients = (m.heap q).clients := by
  unfold Memory.scheduleSave
  cases m.docs m' with
  | none => rfl
  | some r =>
      obtain ⟨-, hheap, -, -⟩ := Memory.clearTimeout_rest m (m.heap r).saveTimer
      show ((Memory.modify _ r _).heap q).clients = _
      rw [clients_modify]
      split
      · next hq =>
          rw [hq]
          show ((m.clearTimeout (m.heap r).saveTimer).heap r).clients = _
          rw [hheap]
      · show ((m.clearTimeout (m.heap r).saveTimer).heap q).clients = _
        rw [hheap]

private theorem docs_scheduleSave (m : Memory) (m' : NodeId) (userId : Option UserId) :
    (m.scheduleSave m' userId).docs = m.docs := (Memory.sameDocs_scheduleSave m m' userId).docs

/-- An idle timer is no save timer, and the timers that `scheduleSave` sets are. -/
private theorem idle_scheduleSave {m : Memory} (hT : m.TimerInv) {m' : NodeId} {r : DocRef}
    (hr : m.docs m' = some r) (userId : Option UserId) {timer : TimerId} :
    (m.scheduleSave m' userId).timers timer = some (.idle n) ↔
      m.timers timer = some (.idle n) := by
  obtain ⟨-, -, hnext, -⟩ := Memory.clearTimeout_rest m (m.heap r).saveTimer
  have htimers : (m.scheduleSave m' userId).timers =
      Function.update (m.clearTimeout (m.heap r).saveTimer).timers
        (m.clearTimeout (m.heap r).saveTimer).nextTimer (some (.save m')) := by
    unfold Memory.scheduleSave
    rw [hr]
    rfl
  rw [htimers, hnext]
  by_cases hnew : timer = m.nextTimer
  · subst hnew
    rw [Function.update_self]
    exact ⟨fun h => (by cases h), fun h => absurd (hT.live h) (Nat.lt_irrefl _)⟩
  · rw [Function.update_of_ne hnew]
    refine ⟨fun h => ?_, fun h => idle_clearTimeout (fun hsave hlive hkind => ?_) h⟩
    · rw [Memory.clearTimeout_timers] at h
      split at h
      · cases h
      · exact h
    · rw [hT.save hr hsave hlive] at hkind
      cases hkind

private theorem idle_startFlush {m : Memory} (hT : m.TimerInv) {m' : NodeId} {r : DocRef}
    (hr : m.docs m' = some r) {timer : TimerId} :
    (m.startFlush r).timers timer = some (.idle n) ↔ m.timers timer = some (.idle n) := by
  have htimers : (m.startFlush r).timers = (m.clearTimeout (m.heap r).saveTimer).timers := rfl
  rw [htimers]
  refine ⟨fun h => ?_, fun h => idle_clearTimeout (fun hsave hlive hkind => ?_) h⟩
  · rw [Memory.clearTimeout_timers] at h
    split at h
    · cases h
    · exact h
  · rw [hT.save hr hsave hlive] at hkind
    cases hkind

/-- The event asks for a document, or puts one into `docs`. -/
def Event.Opens : Event → Prop
  | .getOrCreateDoc _ _ | .startTask _ | .continueLoad _ => True
  | _ => False

private theorem opens_of_asks {a : ℕ ⊕ TaskId} (h : e.asks s = some (a, n)) : e.Opens := by
  cases e with
  | getOrCreateDoc m ws => trivial
  | startTask t => trivial
  | _ => cases h

/-- **How a document becomes stranded.**  A document that is stranded after a step
was so before, or a call on its node is running. -/
theorem stranded_of_step (hI : Inv s) (hF : FlightInv s) (hT : s.mem.TimerInv)
    (h : step lex s e = some s') (hstranded : s'.Stranded n) :
    s.Stranded n ∨ e.Opens ∧ s'.Called n := by
  cases step_timers h with
  | same hsame =>
      refine Or.inl (hstranded.back (fun hr hclients => ?_) fun ht => by rw [hsame.timers, ht])
      rw [hsame.docs] at hr
      exact ⟨hr, (hsame.clients _).symm.trans hclients⟩
  | reopen a m r he hr hmem =>
      by_cases hm : m = n
      · subst hm
        obtain ⟨ws, ha, -, -⟩ := awaiting_of_asks h he
        exact Or.inr ⟨opens_of_asks he, Or.inl ⟨a, _, ha, rfl⟩⟩
      · obtain ⟨hdocs, hclients, htimers⟩ := cancelIdle_rest s.mem r
        refine Or.inl (hstranded.back (fun hq hnone => ?_) fun ht => ?_)
        · rw [hmem, hdocs] at hq
          rw [hmem, hclients] at hnone
          exact ⟨hq, hnone⟩
        · rw [hmem, htimers]
          refine idle_clearTimeout (fun hidle hlive hkind => hm ?_) ht
          rw [hT.idle hr hidle hlive] at hkind
          exact Timer.idle.inj hkind
  | addClient m k r he hr hmem =>
      refine Or.inl (hstranded.back (fun {q} hq hnone => ?_) fun ht => by rw [hmem]; exact ht)
      rw [hmem] at hq
      rw [hmem, clients_modify] at hnone
      split at hnone
      · simp at hnone
      · exact ⟨hq, hnone⟩
  | removeClient m k r he hr hmem =>
      rw [mem_removeClient hr k] at hmem
      split at hmem
      · next hempty =>
          by_cases hm : m = n
          · -- its last client has just left, and the timer is armed
            subst hm
            obtain ⟨q, -, -, htimer⟩ := hstranded
            refine absurd ?_ (htimer s.mem.nextTimer)
            rw [hmem]
            exact Function.update_self ..
          · refine Or.inl (hstranded.back (fun {q} hq hnone => ?_) fun {timer} ht => ?_)
            · have hqr : q ≠ r := by
                rintro rfl
                rw [hmem] at hq
                exact hm (hI.docs_inj hr hq)
              rw [hmem] at hq hnone
              rw [clients_modify, if_neg hqr] at hnone
              refine ⟨hq, ?_⟩
              have hsame : ((s.mem.modify r fun d =>
                  { d with clients := d.clients.erase k }).heap q).clients = ∅ := hnone
              rwa [clients_modify, if_neg hqr] at hsame
            · rw [hmem]
              exact (Function.update_of_ne (hT.live ht).ne ..).trans ht
      · next hleft =>
          refine Or.inl (hstranded.back (fun {q} hq hnone => ?_) fun ht => by rw [hmem]; exact ht)
          rw [hmem] at hq
          rw [hmem, clients_modify] at hnone
          split at hnone
          · exact absurd hnone hleft
          · exact ⟨hq, hnone⟩
  | scheduleSave m userId r he hr hmem =>
      refine Or.inl (hstranded.back (fun {q} hq hnone => ?_) fun ht => ?_)
      · rw [hmem, docs_scheduleSave] at hq
        rw [hmem, clients_scheduleSave] at hnone
        exact ⟨hq, hnone⟩
      · rw [hmem]
        exact (idle_scheduleSave hT hr userId).mpr ht
  | drop m _ hmem =>
      obtain ⟨hdocs, hheap⟩ := Memory.drop_rest s.mem m
      have hne : n ≠ m := by
        rintro rfl
        obtain ⟨q, hq, -⟩ := hstranded
        rw [hmem, hdocs] at hq
        cases hq
      refine Or.inl (hstranded.back (fun {q} hq hnone => ?_) fun ht => ?_)
      · rw [hmem, Memory.docs_drop_of_ne s.mem hne] at hq
        rw [hmem, hheap] at hnone
        exact ⟨hq, hnone⟩
      · rw [hmem]
        exact idle_drop hT hne ht
  | fired timer m _ htimer hmem =>
      refine Or.inl (hstranded.back (fun {q} hq hnone => ?_) fun ht => ?_)
      · rw [hmem] at hq hnone
        exact ⟨hq, hnone⟩
      · rw [hmem]
        refine idle_clearTimeout (fun hcleared hlive hkind => ?_) ht
        cases hcleared
        rw [htimer] at hlive
        cases hlive
        cases hkind
  | evict timer m _ htimer hmem =>
      obtain ⟨hdocs₁, hheap₁, -, -⟩ := Memory.clearTimeout_rest s.mem (some timer)
      have hcleared : ∀ {t}, n ≠ m → s.mem.timers t = some (.idle n) →
          (s.mem.clearTimeout (some timer)).timers t = some (.idle n) := by
        intro t hne ht
        refine idle_clearTimeout (fun hcleared hlive hkind => ?_) ht
        cases hcleared
        rw [htimer] at hlive
        cases hlive
        exact hne (Timer.idle.inj hkind).symm
      rcases (s.mem.clearTimeout (some timer)).evictDoc_cases m with
        ⟨hkept, hclients⟩ | ⟨hdrop, -⟩
      · rw [hkept] at hmem
        obtain ⟨q, hq, hnone, -⟩ := id hstranded
        rw [hmem] at hq hnone
        have hne : n ≠ m := by
          rintro rfl
          exact hclients q hq hnone
        refine Or.inl (hstranded.back (fun {q} hq hnone => ?_) fun ht => ?_)
        · rw [hmem, hdocs₁] at hq
          rw [hmem, hheap₁] at hnone
          exact ⟨hq, hnone⟩
        · rw [hmem]
          exact hcleared hne ht
      · rw [hdrop] at hmem
        have hne : n ≠ m := by
          rintro rfl
          obtain ⟨q, hq, -⟩ := hstranded
          rw [hmem, (Memory.drop_rest _ n).1] at hq
          cases hq
        refine Or.inl (hstranded.back (fun {q} hq hnone => ?_) fun ht => ?_)
        · rw [hmem, Memory.docs_drop_of_ne _ hne, hdocs₁] at hq
          rw [hmem, (Memory.drop_rest _ m).2, hheap₁] at hnone
          exact ⟨hq, hnone⟩
        · rw [hmem]
          exact idle_drop (hT.clearTimeout _) hne (hcleared hne ht)
  | put l m doc ws he hl hmem =>
      by_cases hm : m = n
      · -- the caller that started the load is still suspended
        subst hm he
        obtain ⟨x, hx, rfl, hin⟩ := hl
        obtain ⟨a, ha⟩ := hF.starter (hF.inFlight hx hin).1
        rcases awaiting_of_step h (hF.called ha) ha with ha' | he | ⟨he, -⟩
        · exact Or.inr ⟨trivial, Or.inl ⟨a, _, ha', rfl⟩⟩
        · cases he
        · cases he
      · refine Or.inl (hstranded.back (fun {q} hq hnone => ?_) fun ht => by rw [hmem]; exact ht)
        have hold : s.mem.docs n = some q := by
          rw [hmem] at hq
          exact (Function.update_of_ne (Ne.symm hm) ..).symm.trans hq
        have hsame : s'.mem.heap q = s.mem.heap q := by
          rw [hmem]
          exact Function.update_of_ne (hI.docs_lt hold).ne ..
        exact ⟨hold, by rw [← hsame, hnone]⟩
  | flush m r m₁ hm hr hmem =>
      refine Or.inl (hstranded.back (fun {q} hq hnone => ?_) fun ht => ?_)
      · rw [hmem.docs, Memory.docs_startFlush, hm.docs] at hq
        rw [hmem.clients, clients_startFlush, hm.clients] at hnone
        exact ⟨hq, hnone⟩
      · rw [hmem.timers]
        exact (idle_startFlush (hT.sameEntries hm) (by rw [hm.docs, hr])).mpr (by rw [hm.timers, ht])
  | clear _ hmem =>
      obtain ⟨q, hq, -⟩ := hstranded
      rw [hmem] at hq
      cases hq
  | restart _ hs' =>
      obtain ⟨q, hq, -⟩ := hstranded
      rw [hs'] at hq
      cases hq

/-- A run of events that open nothing strands nothing. -/
theorem stranded_of_exec {es : List Event} (hI : Inv s) (hF : FlightInv s)
    (hT : s.mem.TimerInv) (hes : exec (step lex) s es = some s') (hquiet : ∀ e ∈ es, ¬ e.Opens)
    (hstranded : s'.Stranded n) : s.Stranded n := by
  induction es generalizing s with
  | nil =>
      cases hes
      exact hstranded
  | cons e es ih =>
      rw [exec_cons, Option.bind_eq_some_iff] at hes
      obtain ⟨s₁, h, hes⟩ := hes
      have h₁ := ih (hI.step h) (hF.step h) (timerInv_of_step hI hT h) hes
        fun x hx => hquiet x (List.mem_cons_of_mem _ hx)
      rcases stranded_of_step hI hF hT h h₁ with hold | ⟨hopens, -⟩
      · exact hold
      · exact absurd hopens (hquiet e List.mem_cons_self)

/-- A client that is registered finds its document, or none. -/
theorem not_stranded_of_addClient {k : SocketId} (h : step lex s (.addClient n k) = some s') :
    ¬ s'.Stranded n := by
  rintro ⟨r, hr, hclients, -⟩
  cases h
  cases hdocs : s.mem.docs n with
  | none =>
      have hnone : (s.mem.addClient n k).docs n = some r := hr
      rw [Memory.addClient, hdocs] at hnone
      rw [hdocs] at hnone
      cases hnone
  | some q =>
      have hsome : (s.mem.addClient n k).docs n = some r := hr
      have hempty : ((s.mem.addClient n k).heap r).clients = ∅ := hclients
      rw [Memory.addClient, hdocs] at hsome hempty
      have hq : s.mem.docs n = some r := hsome
      rw [hdocs] at hq
      cases hq
      rw [clients_modify, if_pos rfl] at hempty
      simp at hempty

/-! ### How a document stays stranded -/

/-- The event may register or remove a client, drop an entry, or end a call. -/
def Event.Frees (n : NodeId) : Event → Prop
  | .addClient m _ => m = n
  | .removeClient _ _ | .cleanupNode _ | .fireTimer _ | .finishDestroy | .resumeTask _
  | .restart => True
  | _ => False

/-- A stranded document stays so as long as its entry keeps its clients, and no
idle timer of the node is set. -/
private theorem State.Stranded.forth (h : s.Stranded n)
    (hentry : ∀ {r}, s.mem.docs n = some r → (s.mem.heap r).clients = ∅ →
      s'.mem.docs n = some r ∧ (s'.mem.heap r).clients = ∅)
    (htimers : ∀ {timer}, s'.mem.timers timer = some (.idle n) →
      s.mem.timers timer = some (.idle n)) : s'.Stranded n :=
  h.back hentry htimers

theorem stranded_stays (hI : Inv s) (hL : LoadInv s) (hT : s.mem.TimerInv)
    (h : step lex s e = some s') (hfrees : ¬ e.Frees n) (hstranded : s.Stranded n) :
    s'.Stranded n := by
  cases step_timers h with
  | same hsame =>
      refine hstranded.forth (fun hr hnone => ⟨by rw [hsame.docs, hr], ?_⟩) fun ht => by
        rwa [hsame.timers] at ht
      exact (hsame.clients _).trans hnone
  | reopen a m r he hr hmem =>
      obtain ⟨hdocs, hclients, htimers⟩ := cancelIdle_rest s.mem r
      refine hstranded.forth (fun hr hnone => ⟨by rw [hmem, hdocs, hr], ?_⟩) fun ht => ?_
      · rw [hmem, hclients, hnone]
      · rw [hmem, htimers, Memory.clearTimeout_timers] at ht
        split at ht
        · cases ht
        · exact ht
  | addClient m k r he hr hmem =>
      subst he
      refine hstranded.forth (fun {q} hq hnone => ⟨by rw [hmem]; exact hq, ?_⟩) fun ht => by
        rw [hmem] at ht; exact ht
      have hqr : q ≠ r := by
        rintro rfl
        exact hfrees (hI.docs_inj hr hq)
      rw [hmem, clients_modify, if_neg hqr, hnone]
  | removeClient m k r he hr hmem => exact absurd (by rw [he]; trivial) hfrees
  | scheduleSave m userId r he hr hmem =>
      refine hstranded.forth (fun {q} hq hnone => ?_) fun ht => ?_
      · rw [hmem, docs_scheduleSave, clients_scheduleSave]
        exact ⟨hq, hnone⟩
      · rw [hmem] at ht
        exact (idle_scheduleSave hT hr userId).mp ht
  | drop m he hmem =>
      rcases he with rfl | ⟨t, rfl⟩
      · exact absurd trivial hfrees
      · exact absurd trivial hfrees
  | fired timer m he _ hmem => exact absurd (by rw [he]; trivial) hfrees
  | evict timer m he _ hmem => exact absurd (by rw [he]; trivial) hfrees
  | put l m doc ws he hl hmem =>
      obtain ⟨x, hx, rfl, hin⟩ := hl
      refine hstranded.forth (fun {q} hq hnone => ?_) fun ht => by rw [hmem] at ht; exact ht
      have hm : n ≠ x.nodeId := by
        rintro rfl
        rw [(hL.inFlight hx hin).2] at hq
        cases hq
      have hsame : s'.mem.heap q = s.mem.heap q := by
        rw [hmem]
        exact Function.update_of_ne (hI.docs_lt hq).ne ..
      refine ⟨?_, by rw [hsame, hnone]⟩
      rw [hmem]
      exact (Function.update_of_ne hm ..).trans hq
  | flush m r m₁ hm hr hmem =>
      refine hstranded.forth (fun {q} hq hnone => ?_) fun ht => ?_
      · rw [hmem.docs, Memory.docs_startFlush, hm.docs, hmem.clients, clients_startFlush,
          hm.clients]
        exact ⟨hq, hnone⟩
      · rw [hmem.timers] at ht
        rw [← hm.timers]
        exact (idle_startFlush (hT.sameEntries hm) (by rw [hm.docs, hr])).mp ht
  | clear he hmem => exact absurd (by rw [he]; trivial) hfrees
  | restart he hs' => exact absurd (by rw [he]; trivial) hfrees

theorem stranded_stays_exec {es : List Event} (hI : Inv s) (hL : LoadInv s)
    (hT : s.mem.TimerInv) (hes : exec (step lex) s es = some s') (hfrees : ∀ e ∈ es, ¬ e.Frees n)
    (hstranded : s.Stranded n) : s'.Stranded n := by
  induction es generalizing s with
  | nil =>
      cases hes
      exact hstranded
  | cons e es ih =>
      rw [exec_cons, Option.bind_eq_some_iff] at hes
      obtain ⟨s₁, h, hes⟩ := hes
      exact ih (hI.step h) (hL.step h) (timerInv_of_step hI hT h) hes
        (fun x hx => hfrees x (List.mem_cons_of_mem _ hx))
        (stranded_stays hI hL hT h (hfrees e List.mem_cons_self) hstranded)

/-- The return of an append leaves the entries as they are. -/
theorem mem_of_appendReturned {t : TaskId} {entry : ChainTask NodeId Task}
    (h : step lex s (.resumeTask t) = some s') (htask : s.queue.task t = some entry)
    (happending : entry.payload.appending = true) : s'.mem = s.mem := by
  obtain ⟨entry₁, htask₁, hmem | ⟨⟨caller, hkind⟩, -⟩⟩ := State.mem_resumeTask s h
  · exact hmem
  · obtain rfl : entry = entry₁ := Option.some.inj (htask.symm.trans htask₁)
    simp [Task.appending, hkind] at happending

/-! ### How a call goes on -/

/-- The event ends no call: no caller resumes, and what returns is a flush. -/
def Event.EndsNone (s : State) : Event → Prop
  | .removeClient _ _ | .cleanupNode _ | .fireTimer _ | .finishDestroy => True
  | .resumeTask t => ∀ entry ∈ s.queue.task t, entry.payload.appending = false
  | _ => False

theorem called_of_endsNone (hF : FlightInv s) (h : step lex s e = some s') (he : e.EndsNone s)
    (hcalled : s.Called n) : s'.Called n := by
  rcases hcalled with ⟨a, c, ha, hc⟩ | ⟨i, entry, hentry, hkey, happending⟩
  · refine Or.inl ⟨a, c, ?_, hc⟩
    rcases awaiting_of_step h (hF.called ha) ha with ha' | rfl | ⟨hresumes, -⟩
    · exact ha'
    · exact he.elim
    · cases e <;> first | exact he.elim | cases hresumes
  · have hkeep : s'.queue.task i = some entry →
        ∃ entry', s'.queue.task i = some entry' ∧ entry'.key = n ∧
          entry'.payload.appending = true :=
      fun hentry' => ⟨entry, hentry', hkey, happending⟩
    refine Or.inr ⟨i, ?_⟩
    cases e with
    | removeClient m k =>
        cases h
        obtain ⟨mem, -, hsub⟩ := State.submits_removeClient s m k
        exact hkeep (hsub.keeps hentry)
    | cleanupNode m =>
        cases h
        exact hkeep hentry
    | fireTimer timer =>
        obtain ⟨m, ⟨-, rfl⟩ | ⟨-, rfl⟩⟩ := State.fireTimer_cases s h
        · exact hkeep ((State.submits_flushDoc _ _ _).keeps hentry)
        · exact hkeep hentry
    | finishDestroy =>
        obtain ⟨call, -, rfl⟩ := State.finishDestroy_cases s h
        exact hkeep hentry
    | resumeTask t =>
        obtain ⟨entry₁, result, s₁, htask, -, -, -, hqueue, -, -, -, -, -, hsub⟩ :=
          State.resumeTask_step s h
        have hne : i ≠ t := by
          rintro rfl
          have hflush := he entry (by rw [hentry]; rfl)
          rw [happending] at hflush
          cases hflush
        have hdrop : (s.queue.dropTail t).task i = some entry := by simpa using hentry
        obtain ⟨entry', hentry', hkey', hpay⟩ :=
          PromiseChain.advance_of_task (i := t)
            (p := { entry₁.payload with phase := .returned result }) hdrop
        rcases hpay with hpay | ⟨hi, -⟩
        · refine ⟨entry', hsub.keeps (by rw [hqueue, hentry']), hkey'.trans hkey, ?_⟩
          rw [hpay, happending]
        · exact absurd hi hne
    | _ => exact he.elim

theorem called_of_leaves {es : List Event} (hF : FlightInv s)
    (hes : exec (step lex) s es = some s') (hleaves : ∀ e ∈ es, ∃ m k, e = .removeClient m k)
    (hcalled : s.Called n) : s'.Called n := by
  induction es generalizing s with
  | nil =>
      cases hes
      exact hcalled
  | cons e es ih =>
      rw [exec_cons, Option.bind_eq_some_iff] at hes
      obtain ⟨s₁, h, hes⟩ := hes
      obtain ⟨m, k, rfl⟩ := hleaves e List.mem_cons_self
      exact ih (hF.step h) hes (fun x hx => hleaves x (List.mem_cons_of_mem _ hx))
        (called_of_endsNone hF h trivial hcalled)

end AideepWebsocket.DocManager
