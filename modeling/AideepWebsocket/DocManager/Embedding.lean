import AideepWebsocket.DocManager.Append
import AideepWebsocket.DocManager.Marks
import AideepWebsocket.DocManager.Updates

/-!
# Every edit is embedded again

A flush that has saved a marked document clears the mark and issues an embedding
job.  The mark is one flag for all edits, and it is cleared after an await, so it
may stand for edits that the saved snapshot does not have; the branch of a flush
that saves nothing clears it as well.

An `Audit` is the manager together with a record of what was reported and what was
embedded, read by no step:

* `edits` — for each `scheduleSave(n, u)` what the document held then, and for
  each append its update;
* `embedded` — for each embedding job the snapshots of the saves of its node that
  had completed when it was issued.

`reembedded` says that at rest (`Quiet`) every edit has been embedded, in every
run in which no mark is cleared for an edit that has not (`Guarded`).  The
invariant is that the document of an edit still to be embedded is marked, and that
a timer, a flush or a failure stands for it (`Owed`).
-/

namespace AideepWebsocket.DocManager

open Library

variable {lex : Lexical} {s s' : State} {e : Event}

/-! ### At rest -/

/-- A flush, on its own or in an append, that has not ended; a submitted flush
counts, an append that has not come to its flush does not. -/
def Task.flushPending (x : Task) : Bool :=
  match x.phase with
  | .queued =>
      match x.kind with
      | .flushDoc _ => true
      | .appendMarkdown _ _ _ => false
  | .refreshing _ _ _ | .saving _ _ _ _ _ | .embedding _ _ _ => true
  | _ => false

/-- The task is the last of its node to have begun a flush. -/
structure State.LastFlush (s : State) (n : NodeId) (t : TaskId)
    (entry : ChainTask NodeId Task) : Prop where
  task : s.queue.task t = some entry
  key : entry.key = n
  captured : entry.payload.captured ≠ none
  le : ∀ t' entry', s.queue.task t' = some entry' → entry'.key = n →
    entry'.payload.captured ≠ none → t' ≤ t

/-- No save timer of the node is live, no flush of it is pending, and the last
one resolved. -/
structure State.Quiet (s : State) (n : NodeId) : Prop where
  timers : ∀ timer, s.mem.timers timer ≠ some (.save n)
  pending : ∀ t entry, s.queue.task t = some entry → entry.key = n →
    entry.payload.flushPending = false
  resolved : ∀ t entry, s.LastFlush n t entry → entry.payload.phase.failed = false

/-- Something is left to be done for the object `r` of the node: a save timer is
live, a flush is submitted or awaits its save, or the last flush has failed. -/
inductive State.Owed (s : State) (n : NodeId) (r : DocRef) : Prop
  | timer (timer : TimerId) (htimer : s.mem.timers timer = some (.save n))
  | queued (t : TaskId) (entry : ChainTask NodeId Task) (caller : FlushCaller)
      (htask : s.queue.task t = some entry) (hkey : entry.key = n)
      (hkind : entry.payload.kind = .flushDoc caller) (hphase : entry.payload.phase = .queued)
  | saving (t : TaskId) (entry : ChainTask NodeId Task) (save : SaveId) (sv : StateVector)
      (redis : Option Bool) (failure : Option Failure) (htask : s.queue.task t = some entry)
      (hkey : entry.key = n) (hphase : entry.payload.phase = .saving r save sv redis failure)
  | failed (t : TaskId) (entry : ChainTask NodeId Task) (hlast : s.LastFlush n t entry)
      (hfailed : entry.payload.phase.failed = true)

theorem State.Owed.not_quiet {n : NodeId} {r : DocRef} (h : s.Owed n r) : ¬ s.Quiet n := by
  intro hquiet
  cases h with
  | timer timer htimer => exact hquiet.timers timer htimer
  | queued t entry caller htask hkey hkind hphase =>
      have hpending := hquiet.pending t entry htask hkey
      simp [Task.flushPending, hphase, hkind] at hpending
  | saving t entry save sv redis failure htask hkey hphase =>
      have hpending := hquiet.pending t entry htask hkey
      simp [Task.flushPending, hphase] at hpending
  | failed t entry hlast hfailed =>
      rw [hquiet.resolved t entry hlast] at hfailed
      cases hfailed

/-! ### A task captures a state when its flush begins -/

/-- A task waits for its turn, or for the document. -/
def Phase.Waiting (p : Phase) : Prop := p = .queued ∨ ∃ await, p = .loadingDoc await

/-- A task that waits has captured nothing. -/
def Uncaptured (s : State) : Prop :=
  ∀ t entry, s.queue.task t = some entry → entry.payload.phase.Waiting →
    entry.payload.captured = none

theorem uncaptured_init (nodes : NodeId → Option NodeRow) : Uncaptured (State.init nodes) := by
  intro t entry htask
  cases htask

theorem uncaptured_of_step (hC : Uncaptured s) (h : step lex s e = some s') : Uncaptured s' := by
  intro t entry' htask' hwaiting'
  rcases (step_queue h).task htask' with ⟨entry, htask, -, hstep⟩ | ⟨-, kind, hpayload⟩
  · -- it has waited before: the other steps lead out of the queue for good
    have hlater : ∀ {p : Phase}, entry'.payload.phase = p → ¬ p.Waiting → False :=
      fun hp hnot => hnot (hp ▸ hwaiting')
    have hsettled : ∀ {result}, ¬ (Phase.settled result).Waiting := by
      rintro result (h | ⟨await, h⟩) <;> cases h
    generalize entry'.payload = x at hstep hwaiting' hlater
    cases hstep with
    | stay => exact hC t entry htask hwaiting'
    | load await _ hphase => exact hC t entry htask (Or.inl hphase)
    | fail x f _ _ hx => exact (hlater hx hsettled).elim
    | skip x r p _ _ _ hx => exact (hlater hx (by rintro (h | ⟨await, h⟩) <;> cases h)).elim
    | save x c _ _ _ hx => exact (hlater hx (by rintro (h | ⟨await, h⟩) <;> cases h)).elim
    | saved r save sv p phase _ _ hx =>
        rcases hx with rfl | ⟨job, rfl⟩
        · exact (hlater rfl hsettled).elim
        · exact (hlater rfl (by rintro (h | ⟨await, h⟩) <;> cases h)).elim
    | gone _ =>
        have hstage := State.stage_goneTask entry.payload
        unfold Task.stage at hstage
        rcases hwaiting' with h | ⟨await, h⟩ <;> rw [h] at hstage <;> cases hstage
    | _ => exact (hlater rfl (by rintro (h | ⟨await, h⟩) <;> cases h)).elim
  · rw [hpayload]

theorem stage_ne_queued (hC : Uncaptured s) {t : TaskId} {entry : ChainTask NodeId Task}
    (htask : s.queue.task t = some entry) (hcaptured : entry.payload.captured ≠ none) :
    entry.payload.stage ≠ .queued := by
  intro hstage
  refine hcaptured (hC t entry htask (Or.inl ?_))
  unfold Task.stage at hstage
  cases hphase : entry.payload.phase with
  | queued => rfl
  | _ => rw [hphase] at hstage; cases hstage

/-- A task of the node captures a state in this step. -/
def Begins (s : State) (s' : State) (n : NodeId) (t : TaskId) : Prop :=
  ∃ entry entry', s.queue.task t = some entry ∧ s'.queue.task t = some entry' ∧ entry.key = n ∧
    entry.payload.captured = none ∧ entry'.payload.captured ≠ none

/-- What had captured a state in `s'` and did not begin in this step had done so
in `s`. -/
private theorem captured_before (h : step lex s e = some s') {n : NodeId} {t : TaskId}
    {entry' : ChainTask NodeId Task} (htask' : s'.queue.task t = some entry')
    (hkey : entry'.key = n) (hcaptured : entry'.payload.captured ≠ none)
    (hnot : ¬ Begins s s' n t) :
    ∃ entry, s.queue.task t = some entry ∧ entry.key = n ∧ entry.payload.captured ≠ none := by
  rcases (step_queue h).task htask' with ⟨entry, htask, hkey', -⟩ | ⟨-, kind, hpayload⟩
  · exact ⟨entry, htask, hkey'.symm.trans hkey, fun hnone =>
      hnot ⟨entry, entry', htask, htask', hkey'.symm.trans hkey, hnone, hcaptured⟩⟩
  · exact absurd (by rw [hpayload]) hcaptured

/-! ### What becomes of a mark -/

/-- The step clears the mark of the node's object `r`: a flush begins and finds
nothing to save, or one resumes from its save. -/
inductive Consumes (s : State) (e : Event) (s' : State) (n : NodeId) (r : DocRef) : Prop
  | skip (t : TaskId) (entry' : ChainTask NodeId Task) (persisted : Persisted)
      (he : e = .startTask t ∨ ∃ clientId, e = .resumeAppend t clientId)
      (htask' : s'.queue.task t = some entry') (hkey : entry'.key = n)
      (hphase : entry'.payload.phase = .refreshing r persisted none)
  | save (t : TaskId) (entry : ChainTask NodeId Task) (save : SaveId) (sv : StateVector)
      (persisted : Persisted) (he : e = .continueFlush t) (htask : s.queue.task t = some entry)
      (hkey : entry.key = n)
      (hphase : entry.payload.phase = .saving r save sv (some true) none)
      (hsave : (s.saves save).map SaveCall.phase = some (.resolved persisted))

/-- A mark stays, or it is cleared in one of the two ways. -/
theorem marked_of_step (hI : Inv s) (hT : s.mem.TimerInv) (h : step lex s e = some s')
    {n : NodeId} {r : DocRef} (hdocs : s.mem.docs n = some r) (hdocs' : s'.mem.docs n = some r)
    (hmarked : s.mem.Marked r) : s'.mem.Marked r ∨ Consumes s e s' n r := by
  cases step_marks hI hT h with
  | calm hcalm _ => exact Or.inl (hcalm.marked hmarked)
  | appendEnded t entry _ _ hcalm _ => exact Or.inl (hcalm.marked hmarked)
  | scheduleSave m userId _ hmem =>
      rw [hmem]
      exact Or.inl (Memory.marked_scheduleSave hmarked)
  | drop m k hcalm hmem _ =>
      left
      unfold Memory.Marked
      rw [hmem, (Memory.drop_rest m k).2]
      exact hcalm.marked hmarked
  | gone _ hnone _ =>
      rw [hnone n] at hdocs'
      cases hdocs'
  | fired timer m _ hmem _ _ =>
      left
      unfold Memory.Marked
      rw [hmem, (Memory.clearTimeout_rest s.mem (some timer)).2.1]
      exact hmarked
  | put m doc ws hmem _ =>
      left
      unfold Memory.Marked
      rw [hmem, show (s.mem.put m (ManagedDoc.loaded doc ws)).heap r = s.mem.heap r from
        Function.update_of_ne (hI.docs_lt hdocs).ne ..]
      exact hmarked
  | flush t entry q m he htask _ _ hcalm hq _ hmem hskip =>
      by_cases hqr : r = q
      · subst hqr
        rw [hcalm.docs] at hq
        have hkey : entry.key = n := hI.docs_inj hq hdocs
        by_cases hunchanged : (m.heap r).unchanged = true
        · obtain ⟨entry', persisted, htask', hkey', hphase⟩ := hskip hunchanged
          exact Or.inr (.skip t entry' persisted he htask' (hkey'.trans hkey) hphase)
        · rw [hmem, if_neg hunchanged]
          exact Or.inl (Memory.marked_startFlush (hcalm.marked hmarked))
      · left
        rw [hmem]
        split
        · exact Memory.marked_clearMark hqr (Memory.marked_startFlush (hcalm.marked hmarked))
        · exact Memory.marked_startFlush (hcalm.marked hmarked)
  | saved t entry q save sv persisted he htask hphase hsave _ _ _ hother =>
      by_cases hqr : r = q
      · subst hqr
        obtain ⟨c, hc, -, hcref, hcnode, -, -⟩ := hI.saving htask hphase
        have hkey : entry.key = n := hcnode.symm.trans (hI.ref_node hdocs hc hcref)
        exact Or.inr (.save t entry save sv persisted he htask hkey hphase hsave)
      · exact Or.inl (hother r hqr hmarked)

/-! ### What becomes of what is owed -/

/-- A flush of the node has begun: it saves, or has found nothing to save, or has
failed as the last one. -/
theorem owed_of_begins (hC : Uncaptured s) (h : step lex s e = some s') {n : NodeId} {r : DocRef}
    {t : TaskId} (hbegins : Begins s s' n t) (hdocs' : s'.mem.docs n = some r) :
    s'.Owed n r ∨ Consumes s e s' n r := by
  obtain ⟨entry, entry', htask, htask', rfl, hnone, hcaptured⟩ := hbegins
  obtain ⟨entry₁, htask₁, hkey', hstep⟩ := step_task h htask
  obtain rfl : entry₁ = entry' := by
    rw [htask'] at htask₁
    exact (Option.some.inj htask₁).symm
  have he : e = .startTask t ∨ ∃ clientId, e = .resumeAppend t clientId := by
    by_contra hnot
    exact hcaptured ((hstep.captured_eq hnot).trans hnone)
  -- no other task begins in this step
  have hother : ∀ {t'}, Begins s s' entry.key t' → t' = t := by
    rintro t' ⟨e₁, e₁', ht₁, ht₁', -, hnone₁, hcaptured₁⟩
    obtain ⟨e₂, ht₂, -, hstep₁⟩ := step_task h ht₁
    rw [ht₁'] at ht₂
    obtain rfl := Option.some.inj ht₂
    have he₁ : e = .startTask t' ∨ ∃ clientId, e = .resumeAppend t' clientId := by
      by_contra hnot
      exact hcaptured₁ ((hstep₁.captured_eq hnot).trans hnone₁)
    rcases he with rfl | ⟨clientId, rfl⟩ <;> rcases he₁ with he₁ | ⟨clientId', he₁⟩ <;> cases he₁ <;>
      rfl
  -- every task of the node that has captured a state is older
  have hle : entry.payload.stage ≠ .settled → ∀ t' e', s'.queue.task t' = some e' →
      e'.key = entry.key → e'.payload.captured ≠ none → t' ≤ t := by
    intro hstage t' e' ht' hkey₁ hcaptured₁
    by_contra hlt
    have hne : t' ≠ t := fun heq => hlt heq.le
    obtain ⟨e₀, he₀, hkey₀, hcaptured₀⟩ := captured_before h ht' hkey₁ hcaptured₁
      fun hb => hne (hother hb)
    exact hstage (s.queue.settled_of_lt he₀ (stage_ne_queued hC he₀ hcaptured₀) htask hkey₀.symm
      (not_le.mp hlt))
  generalize hx : entry₁.payload = x at hstep hcaptured
  cases hstep with
  | fail x failure _ hstage hphase' _ _ _ =>
      refine Or.inl (.failed t entry₁ ⟨htask', hkey', by rwa [hx], hle hstage⟩ ?_)
      rw [hx, hphase']
      rfl
  | skip x q persisted _ _ _ hphase' hdocs _ _ _ =>
      rw [hdocs'] at hdocs
      obtain rfl := Option.some.inj hdocs
      exact Or.inr (.skip t entry₁ persisted he htask' hkey' (by rw [hx, hphase']))
  | save x c _ _ _ hphase' _ _ _ hdocs _ _ _ =>
      rw [hdocs'] at hdocs
      obtain rfl := Option.some.inj hdocs
      exact Or.inl (.saving t entry₁ _ _ _ _ htask' hkey' (by rw [hx]; exact hphase'))
  | gone hrestart =>
      rcases he with he | ⟨clientId, he⟩ <;> rw [hrestart] at he <;> cases he
  | _ => exact absurd hnone hcaptured

/-- A submitted flush is still in its queue, or it begins. -/
private theorem owed_of_queued (hC : Uncaptured s) (h : step lex s e = some s') {n : NodeId}
    {r : DocRef} (hdocs : s.mem.docs n = some r) (hdocs' : s'.mem.docs n = some r) {t : TaskId}
    {entry : ChainTask NodeId Task} {caller : FlushCaller} (htask : s.queue.task t = some entry)
    (hkey : entry.key = n) (hkind : entry.payload.kind = .flushDoc caller)
    (hphase : entry.payload.phase = .queued) : s'.Owed n r ∨ Begins s s' n t := by
  obtain ⟨entry', htask', hkey', hstep⟩ := step_task h htask
  have hkind' := hstep.kind
  by_cases hstart : e = .startTask t
  · subst hstart
    obtain ⟨entry₁, htask₁, -, hready, ⟨-, hflush⟩ | ⟨ws, markdown, userId, hkind₁, -⟩⟩ :=
      State.startTask_step s h
    · rw [htask] at htask₁
      obtain rfl := Option.some.inj htask₁
      have hbegins : ∀ p : Task, s'.queue = s.queue.advance t p → p.stage ≠ .queued →
          p.captured ≠ none → Begins s s' n t := by
        intro p hqueue hp hcaptured
        refine ⟨entry, { entry with payload := p }, htask, ?_, hkey,
          hC t entry htask (Or.inl hphase), hcaptured⟩
        rw [hqueue]
        exact PromiseChain.advance_task_self htask (PromiseChain.canAdvance_of_ready
          (by simp [Task.stage, hphase, Phase.stage]) hready hp)
      cases hflush with
      | notLoaded hnone =>
          rw [hkey, hdocs] at hnone
          cases hnone
      | skip q mem => exact Or.inr (hbegins _ rfl (by simp [Phase.stage]) (by simp))
      | throws q mem cmds => exact Or.inr (hbegins _ rfl (by simp [Phase.stage]) (by simp))
      | save q mem c => exact Or.inr (hbegins _ rfl (by simp [Phase.stage]) (by simp))
    · rw [htask] at htask₁
      obtain rfl := Option.some.inj htask₁
      rw [hkind] at hkind₁
      cases hkind₁
  · -- nothing but its start moves a queued task, short of the end of the process
    left
    have hnotResume : ∀ clientId, e ≠ .resumeAppend t clientId := by
      rintro clientId rfl
      obtain ⟨entry₁, await, _, _, _, htask₁, hphase₁, -⟩ := State.resumeAppend_step s h
      rw [htask] at htask₁
      obtain rfl := Option.some.inj htask₁
      rw [hphase] at hphase₁
      cases hphase₁
    have hnotContinue : e ≠ .continueFlush t := by
      rintro rfl
      obtain ⟨entry₁, mem, phase, htask₁, -, hcase⟩ := State.continueFlush_step s h
      rw [htask] at htask₁
      obtain rfl := Option.some.inj htask₁
      rw [hphase] at hcase
      rcases hcase with ⟨-, q, p, hp, -⟩ | ⟨-, ⟨q, p, hp⟩, -⟩ | ⟨-, q, save, sv, redis, f, hp, -⟩ |
        ⟨q, save, sv, p, hp, -⟩ <;> cases hp
    have hsame : entry'.payload = entry.payload := by
      generalize entry'.payload = x at hstep
      cases hstep with
      | stay => rfl
      | load await he _ => exact absurd he hstart
      | fail x f _ _ _ _ _ he =>
          rcases he with he | ⟨clientId, he⟩ | he
          · exact absurd he hstart
          · exact absurd he (hnotResume clientId)
          · exact absurd he hnotContinue
      | skip x q p _ he =>
          rcases he with he | ⟨clientId, he⟩
          · exact absurd he hstart
          · exact absurd he (hnotResume clientId)
      | save x c _ he =>
          rcases he with he | ⟨clientId, he⟩
          · exact absurd he hstart
          · exact absurd he (hnotResume clientId)
      | gone he =>
          subst he
          obtain rfl := Option.some.inj h
          cases hdocs'
      | refreshReplied q p ok hp => rw [hphase] at hp; cases hp
      | saveReplied q save sv ok f f' hp => rw [hphase] at hp; cases hp
      | saveRejected q save sv redis f f' hp => rw [hphase] at hp; cases hp
      | refreshed q p hp => rw [hphase] at hp; cases hp
      | saved q save sv p phase hp => rw [hphase] at hp; cases hp
      | embedded q p job hp => rw [hphase] at hp; cases hp
      | returned result hp => rw [hphase] at hp; cases hp
    exact .queued t entry' caller htask' (hkey'.trans hkey) (hkind'.trans hkind)
      (by rw [hsame, hphase])

/-- A flush that awaits its save goes on doing so, or has failed as the last one,
or its save has resolved. -/
private theorem owed_of_saving (hI : Inv s) (hC : Uncaptured s) (h : step lex s e = some s')
    {n : NodeId} {r : DocRef} (hdocs' : s'.mem.docs n = some r)
    (hnone : ∀ t, ¬ Begins s s' n t) {t : TaskId} {entry : ChainTask NodeId Task} {save : SaveId}
    {sv : StateVector} {redis : Option Bool} {failure : Option Failure}
    (htask : s.queue.task t = some entry) (hkey : entry.key = n)
    (hphase : entry.payload.phase = .saving r save sv redis failure) :
    s'.Owed n r ∨ Consumes s e s' n r := by
  obtain ⟨entry', htask', hkey', hstep⟩ := step_task h htask
  obtain ⟨c, -, -, -, -, -, hcaptured⟩ := hI.saving htask hphase
  have hrunning : entry.payload.stage = .running := by simp [Task.stage, hphase, Phase.stage]
  generalize hx : entry'.payload = x at hstep
  have hfailed : ∀ f, x.phase = .settled (.error f) → x.captured = entry.payload.captured →
      s'.Owed n r := by
    intro f hphase' hsame
    refine .failed t entry' ⟨htask', hkey'.trans hkey, by rw [hx, hsame, hcaptured]; simp, ?_⟩
      (by rw [hx, hphase']; rfl)
    intro t' e' ht' hkey₁ hcaptured₁
    obtain ⟨e₀, he₀, hkey₀, hcaptured₀⟩ := captured_before h ht' hkey₁ hcaptured₁ (hnone t')
    exact s.queue.le_of_running htask hrunning he₀ (stage_ne_queued hC he₀ hcaptured₀)
      (hkey₀.trans hkey.symm)
  cases hstep with
  | stay => exact Or.inl (.saving t entry' save sv redis failure htask' (hkey'.trans hkey)
      (by rw [hx, hphase]))
  | saveReplied q save' sv' ok f f' hp _ =>
      rw [hphase] at hp
      cases hp
      exact Or.inl (.saving t entry' _ _ _ _ htask' (hkey'.trans hkey) (by rw [hx]))
  | saveRejected q save' sv' redis' f f' hp =>
      rw [hphase] at hp
      cases hp
      exact Or.inl (.saving t entry' _ _ _ _ htask' (hkey'.trans hkey) (by rw [hx]))
  | fail x f _ _ hphase' hcap _ he =>
      refine Or.inl (hfailed f hphase' ?_)
      rcases hcap with hsame | ⟨-, he, -⟩
      · exact hsame
      · rcases he with rfl | ⟨clientId, rfl⟩
        · obtain ⟨entry₁, htask₁, hphase₁, -⟩ := State.startTask_step s h
          rw [htask] at htask₁
          obtain rfl := Option.some.inj htask₁
          rw [hphase] at hphase₁
          cases hphase₁
        · obtain ⟨entry₁, await, _, _, _, htask₁, hphase₁, -⟩ := State.resumeAppend_step s h
          rw [htask] at htask₁
          obtain rfl := Option.some.inj htask₁
          rw [hphase] at hphase₁
          cases hphase₁
  | saved q save' sv' p phase hp hsave _ he =>
      rw [hphase] at hp
      cases hp
      exact Or.inr (.save t entry save sv p he htask hkey hphase hsave)
  | gone he =>
      subst he
      obtain rfl := Option.some.inj h
      cases hdocs'
  | load await _ hp => rw [hphase] at hp; cases hp
  | skip x q p _ _ hp => rcases hp with hp | ⟨await, hp⟩ <;> rw [hphase] at hp <;> cases hp
  | save x c _ _ hp => rcases hp with hp | ⟨await, hp⟩ <;> rw [hphase] at hp <;> cases hp
  | refreshReplied q p ok hp => rw [hphase] at hp; cases hp
  | refreshed q p hp => rw [hphase] at hp; cases hp
  | embedded q p job hp => rw [hphase] at hp; cases hp
  | returned result hp => rw [hphase] at hp; cases hp

/-- The last flush of the node stays the last one, and failed. -/
private theorem owed_of_failed (h : step lex s e = some s') {n : NodeId}
    {r : DocRef} (hnone : ∀ t, ¬ Begins s s' n t) {t : TaskId} {entry : ChainTask NodeId Task}
    (hlast : s.LastFlush n t entry) (hfailed : entry.payload.phase.failed = true) :
    s'.Owed n r := by
  obtain ⟨entry', htask', hkey', hstep⟩ := step_task h hlast.task
  have hcaptured' : entry'.payload.captured ≠ none := by
    have hsame : entry'.payload.captured = entry.payload.captured := by
      refine hstep.captured_eq ?_
      rintro (rfl | ⟨clientId, rfl⟩)
      · obtain ⟨entry₁, htask₁, hphase₁, -⟩ := State.startTask_step s h
        rw [hlast.task] at htask₁
        obtain rfl := Option.some.inj htask₁
        rw [hphase₁] at hfailed
        cases hfailed
      · obtain ⟨entry₁, await, _, _, _, htask₁, hphase₁, -⟩ := State.resumeAppend_step s h
        rw [hlast.task] at htask₁
        obtain rfl := Option.some.inj htask₁
        rw [hphase₁] at hfailed
        cases hfailed
    rw [hsame]
    exact hlast.captured
  refine .failed t entry' ⟨htask', hkey'.trans hlast.key, hcaptured', ?_⟩ ?_
  · intro t' e' ht' hkey₁ hcaptured₁
    obtain ⟨e₀, he₀, hkey₀, hcaptured₀⟩ := captured_before h ht' hkey₁ hcaptured₁ (hnone t')
    exact hlast.le t' e₀ he₀ hkey₀ hcaptured₀
  · by_contra hnot
    rw [Bool.not_eq_true] at hnot
    rw [hstep.failed_before hnot] at hfailed
    cases hfailed

/-- A live save timer stays, or it is replaced, or it fires, or a flush of the
node begins. -/
private theorem owed_of_timer (hI : Inv s) (hT : s.mem.TimerInv) (hC : Uncaptured s)
    (h : step lex s e = some s') {n : NodeId} {r : DocRef} (hdocs : s.mem.docs n = some r)
    (hdocs' : s'.mem.docs n = some r) {timer : TimerId}
    (htimer : s.mem.timers timer = some (.save n)) :
    s'.Owed n r ∨ ∃ t, Begins s s' n t := by
  cases step_marks hI hT h with
  | calm hcalm _ => exact Or.inl (.timer timer (hcalm.timers htimer))
  | appendEnded t entry _ _ hcalm _ => exact Or.inl (.timer timer (hcalm.timers htimer))
  | scheduleSave m userId _ hmem =>
      left
      by_cases hn : n = m
      · subst hn
        refine .timer s.mem.nextTimer ?_
        rw [hmem]
        exact (Memory.saveScheduled hdocs userId).timer
      · refine .timer timer ?_
        rw [hmem]
        exact Memory.timers_scheduleSave hT hn htimer
  | drop m k hcalm hmem _ =>
      by_cases hn : n = k
      · subst hn
        rw [hmem, (Memory.drop_rest m n).1] at hdocs'
        cases hdocs'
      · refine Or.inl (.timer timer ?_)
        rw [hmem]
        exact Memory.timers_drop hcalm.timerInv hn (hcalm.timers htimer)
  | gone _ hnone _ =>
      rw [hnone n] at hdocs'
      cases hdocs'
  | fired timer' m htimer' hmem hqueue _ =>
      left
      by_cases heq : timer = timer'
      · subst heq
        rw [htimer] at htimer'
        obtain rfl : n = m := by simpa using htimer'
        refine .queued s.queue.next
          ⟨n, s.queue.tail n, { kind := .flushDoc .saveTimer, phase := .queued }⟩
          .saveTimer ?_ rfl rfl rfl
        rw [hqueue]
        exact Function.update_self ..
      · refine .timer timer ?_
        rw [hmem, Memory.clearTimeout_timers, if_neg fun hsome => heq (Option.some.inj hsome).symm]
        exact htimer
  | put m doc ws hmem _ =>
      refine Or.inl (.timer timer ?_)
      rw [hmem]
      exact htimer
  | flush t entry q m he htask hwaiting hbegun hcalm hq _ hmem _ =>
      by_cases hn : n = entry.key
      · obtain ⟨entry', htask', hkey', hcaptured⟩ := hbegun
        exact Or.inr ⟨t, entry, entry', htask, htask', hn.symm, hC t entry htask hwaiting, hcaptured⟩
      · refine Or.inl (.timer timer ?_)
        have hkept := Memory.timers_startFlush hcalm.timerInv hq hn (hcalm.timers htimer)
        rw [hmem]
        split <;> exact hkept
  | saved t entry q save sv persisted _ _ _ _ _ _ htimers _ =>
      refine Or.inl (.timer timer ?_)
      rw [htimers]
      exact htimer

/-- **What is owed stays owed**, unless the step clears the mark. -/
theorem owed_of_step (hI : Inv s) (hT : s.mem.TimerInv) (hC : Uncaptured s)
    (h : step lex s e = some s') {n : NodeId} {r : DocRef} (hdocs : s.mem.docs n = some r)
    (hdocs' : s'.mem.docs n = some r) (hO : s.Owed n r) :
    s'.Owed n r ∨ Consumes s e s' n r := by
  by_cases hbegins : ∃ t, Begins s s' n t
  · obtain ⟨t, hbegins⟩ := hbegins
    exact owed_of_begins hC h hbegins hdocs'
  · have hnone : ∀ t, ¬ Begins s s' n t := fun t ht => hbegins ⟨t, ht⟩
    cases hO with
    | timer timer htimer =>
        exact (owed_of_timer hI hT hC h hdocs hdocs' htimer).imp_right fun ht =>
          absurd ht hbegins
    | queued t entry caller htask hkey hkind hphase =>
        exact (owed_of_queued hC h hdocs hdocs' htask hkey hkind hphase).imp_right fun ht =>
          absurd ht (hnone t)
    | saving t entry save sv redis failure htask hkey hphase =>
        exact owed_of_saving hI hC h hdocs' hnone htask hkey hphase
    | failed t entry hlast hfailed => exact Or.inl (owed_of_failed h hnone hlast hfailed)

/-! ### The audit -/

/-- What a step reports: `scheduleSave(n, u)` that the document has been edited,
an append its update. -/
def reported (s : State) (e : Event) (s' : State) : List (NodeId × YDoc) :=
  match e with
  | .scheduleSave n (some _) => (s.mem.docs n).toList.map fun r => (n, (s.mem.heap r).doc)
  | .resumeAppend t _ =>
      (s'.queue.task t).toList.flatMap fun entry =>
        entry.payload.update.toList.map fun u => (entry.key, u)
  | _ => []

/-- The snapshots of the completed saves of a node. -/
def snapshots (s : State) (n : NodeId) : List (NodeId × YDoc) :=
  (List.range s.nextSave).filterMap fun save => (s.saves save).bind fun c =>
    match c.phase with
    | .resolved _ => if c.nodeId = n then some (n, c.state) else none
    | _ => none

/-- The snapshots that an embedding job issued by the step stands for. -/
def issued (s : State) (e : Event) (s' : State) : List (NodeId × YDoc) :=
  match e with
  | .continueFlush t =>
      match s'.queue.task t with
      | some ⟨n, _, { phase := .embedding _ _ _, .. }⟩ => snapshots s n
      | _ => []
  | _ => []

/-- The manager, with what was reported and what was embedded. -/
structure Audit where
  server : State
  edits : List (NodeId × YDoc)
  embedded : List (NodeId × YDoc)

namespace Audit

def init (nodes : NodeId → Option NodeRow) : Audit := ⟨State.init nodes, [], []⟩

def step (lex : Lexical) (a : Audit) (e : Event) : Option Audit :=
  (DocManager.step lex a.server e).map fun s' =>
    ⟨s', a.edits ++ reported a.server e s', a.embedded ++ issued a.server e s'⟩

/-- An embedding job of the node has been issued after a save of the edit. -/
def Embedded (a : Audit) (edit : NodeId × YDoc) : Prop :=
  ∃ saved ∈ a.embedded, saved.1 = edit.1 ∧ edit.2 ≤ saved.2

instance (a : Audit) (edit : NodeId × YDoc) : Decidable (a.Embedded edit) := by
  unfold Embedded
  infer_instance

/-- **At rest every edit has been embedded.** -/
def Reembedded (a : Audit) : Prop :=
  ∀ edit ∈ a.edits, a.server.Quiet edit.1 → a.Embedded edit

/-- An append edits the object that `docs` holds for its node. -/
def EditsDoc (a : Audit) (t : TaskId) : Prop :=
  ∀ r ∈ a.server.editedRef t, ∀ entry ∈ a.server.queue.task t,
    a.server.mem.docs entry.key = some r

/-- If the flush of the task has found nothing to save, every edit of its node
has been embedded. -/
def SkipsNothing (a' : Audit) (t : TaskId) : Prop :=
  ∀ entry ∈ a'.server.queue.task t,
    match entry.payload.phase with
    | .refreshing _ _ _ => ∀ edit ∈ a'.edits, edit.1 = entry.key → a'.Embedded edit
    | _ => True

/-- If the flush of the task resumes from its save of the managed object, every
edit of its node is in the saved snapshot, or has been embedded. -/
def SavesAll (a : Audit) (t : TaskId) : Prop :=
  ∀ entry ∈ a.server.queue.task t,
    match entry.payload.phase with
    | .saving r save _ (some true) none =>
        a.server.mem.docs entry.key = some r → ∀ c ∈ a.server.saves save,
          ∀ edit ∈ a.edits, edit.1 = entry.key → edit.2 ≤ c.state ∨ a.Embedded edit
    | _ => True

/-- **No mark is cleared for an edit that has not been embedded**: documents with
such an edit are not dropped, flushes do not skip them, and save them before they
clear the mark; and appends edit what `docs` holds. -/
def Guarded (a : Audit) (e : Event) (a' : Audit) : Prop :=
  (∀ edit ∈ a.edits, ∀ r ∈ a.server.mem.docs edit.1,
    a'.server.mem.docs edit.1 = some r ∨ a.Embedded edit) ∧
  match e with
  | .startTask t => a'.SkipsNothing t
  | .resumeAppend t _ => a.EditsDoc t ∧ a'.SkipsNothing t
  | .continueFlush t => a.SavesAll t
  | _ => True

instance (a : Audit) (t : TaskId) : Decidable (a.EditsDoc t) := by
  unfold EditsDoc
  infer_instance

instance (a : Audit) (t : TaskId) : Decidable (a.SkipsNothing t) := by
  have hentry : ∀ entry : ChainTask NodeId Task, Decidable (match entry.payload.phase with
      | .refreshing _ _ _ => ∀ edit ∈ a.edits, edit.1 = entry.key → a.Embedded edit
      | _ => True) := fun entry => by split <;> infer_instance
  unfold SkipsNothing
  infer_instance

instance (a : Audit) (t : TaskId) : Decidable (a.SavesAll t) := by
  have hentry : ∀ entry : ChainTask NodeId Task, Decidable (match entry.payload.phase with
      | .saving r save _ (some true) none =>
          a.server.mem.docs entry.key = some r → ∀ c ∈ a.server.saves save,
            ∀ edit ∈ a.edits, edit.1 = entry.key → edit.2 ≤ c.state ∨ a.Embedded edit
      | _ => True) := fun entry => by split <;> infer_instance
  unfold SavesAll
  infer_instance

instance (a : Audit) (e : Event) (a' : Audit) : Decidable (a.Guarded e a') := by
  have hevent : Decidable (match e with
      | .startTask t => a'.SkipsNothing t
      | .resumeAppend t _ => a.EditsDoc t ∧ a'.SkipsNothing t
      | .continueFlush t => a.SavesAll t
      | _ => True) := by
    induction e using Event.casesOn <;> infer_instance
  unfold Guarded
  infer_instance

/-! ### The invariant -/

/-- The document of the edit is managed, has the edit and is marked, and something
is left to be done for it. -/
def Kept (a : Audit) (edit : NodeId × YDoc) : Prop :=
  ∃ r, a.server.mem.docs edit.1 = some r ∧ edit.2 ≤ (a.server.mem.heap r).doc ∧
    a.server.mem.Marked r ∧ a.server.Owed edit.1 r

/-- **An edit has been embedded, or is kept for the next flush.** -/
structure AuditInv (a : Audit) : Prop where
  manager : ManagerInv a.server
  timers : a.server.mem.TimerInv
  uncaptured : Uncaptured a.server
  kept : ∀ edit ∈ a.edits, a.Embedded edit ∨ a.Kept edit

theorem auditInv_init (nodes : NodeId → Option NodeRow) : AuditInv (init nodes) where
  manager := managerInv_init nodes
  timers := Memory.timerInv_of_none (fun _ => rfl) fun _ => rfl
  uncaptured := uncaptured_init nodes
  kept edit hedit := by cases hedit

theorem AuditInv.atRest {a : Audit} (hA : AuditInv a) : a.Reembedded := by
  intro edit hedit hquiet
  rcases hA.kept edit hedit with hembedded | ⟨r, -, -, -, howed⟩
  · exact hembedded
  · exact absurd hquiet howed.not_quiet

variable {a a' : Audit}

private theorem step_eq (h : a.step lex e = some a') :
    DocManager.step lex a.server e = some a'.server ∧
      a'.edits = a.edits ++ reported a.server e a'.server ∧
      a'.embedded = a.embedded ++ issued a.server e a'.server := by
  obtain ⟨s', hs', rfl⟩ := Option.map_eq_some_iff.mp h
  exact ⟨hs', rfl, rfl⟩

private theorem Embedded.step (h : a.step lex e = some a') {edit : NodeId × YDoc}
    (hembedded : a.Embedded edit) : a'.Embedded edit := by
  obtain ⟨saved, hmem, hsaved⟩ := hembedded
  refine ⟨saved, ?_, hsaved⟩
  rw [(step_eq h).2.2]
  exact List.mem_append_left _ hmem

/-- A mark that is cleared after a save has become an embedding job. -/
private theorem embedded_of_save (hA : AuditInv a) (h : a.step lex e = some a') {n : NodeId}
    {r : DocRef} (hdocs : a.server.mem.docs n = some r) (hmarked : a.server.mem.Marked r)
    {t : TaskId} {entry : ChainTask NodeId Task} {save : SaveId} {sv : StateVector}
    {persisted : Persisted} (he : e = .continueFlush t) (htask : a.server.queue.task t = some entry)
    (hkey : entry.key = n) (hphase : entry.payload.phase = .saving r save sv (some true) none)
    (hsave : (a.server.saves save).map SaveCall.phase = some (.resolved persisted))
    (hguard : a.SavesAll t) {edit : NodeId × YDoc} (hedit : edit ∈ a.edits) (hn : edit.1 = n) :
    a'.Embedded edit := by
  subst he hkey
  obtain ⟨hstep, -, hembedded'⟩ := step_eq h
  obtain ⟨c, hc, hcphase⟩ := Option.map_eq_some_iff.mp hsave
  obtain ⟨c', hc', -, -, hcnode, -, -⟩ := hA.manager.inv.saving htask hphase
  obtain rfl : c = c' := by
    rw [hc] at hc'
    exact Option.some.inj hc'
  have hall := hguard entry htask
  rw [hphase] at hall
  rcases hall hdocs c hc edit hedit hn with hle | hbefore
  · -- the saved snapshot has it, and the task goes on to the embedding job
    obtain ⟨⟨_, _, ⟨_, _, _, _, _⟩⟩, persisted', job, htask', rfl, rfl⟩ :=
      embedding_of_continueFlush hstep htask hphase hmarked
    refine ⟨(entry.key, c.state), ?_, hn.symm, hle⟩
    rw [hembedded']
    have hsaved : (entry.key, c.state) ∈ snapshots a.server entry.key := by
      refine List.mem_filterMap.mpr ⟨save, List.mem_range.mpr (hA.manager.inv.save_lt hc), ?_⟩
      simp [hc, hcphase, hcnode]
    refine List.mem_append_right _ ?_
    simpa only [issued, htask'] using hsaved
  · exact hbefore.step h

/-- What a flush that skips leaves behind has been embedded. -/
private theorem embedded_of_skip (hguard : a.Guarded e a') {t : TaskId}
    (he : e = .startTask t ∨ ∃ clientId, e = .resumeAppend t clientId)
    {entry' : ChainTask NodeId Task} (htask' : a'.server.queue.task t = some entry') {r : DocRef}
    {persisted : Persisted} (hphase : entry'.payload.phase = .refreshing r persisted none)
    {edit : NodeId × YDoc} (hedit : edit ∈ a'.edits) (hn : edit.1 = entry'.key) :
    a'.Embedded edit := by
  have hskip : a'.SkipsNothing t := by
    rcases he with rfl | ⟨clientId, rfl⟩
    · exact hguard.2
    · exact hguard.2.2
  have hall := hskip entry' htask'
  rw [hphase] at hall
  exact hall edit hedit hn

/-- An edit that was there before. -/
private theorem kept_of_old (hA : AuditInv a) (h : a.step lex e = some a')
    (hguard : a.Guarded e a') {edit : NodeId × YDoc} (hedit : edit ∈ a.edits) :
    a'.Embedded edit ∨ a'.Kept edit := by
  obtain ⟨hstep, hedits, -⟩ := step_eq h
  have hI := hA.manager.inv
  rcases hA.kept edit hedit with hembedded | ⟨r, hdocs, hle, hmarked, howed⟩
  · exact Or.inl (hembedded.step h)
  · rcases hguard.1 edit hedit r hdocs with hdocs' | hembedded
    · have hedit' : edit ∈ a'.edits := by
        rw [hedits]
        exact List.mem_append_left _ hedit
      -- a step that clears the mark has embedded the edit
      have hconsumed : Consumes a.server e a'.server edit.1 r → a'.Embedded edit := by
        intro hconsumes
        cases hconsumes with
        | skip t entry' persisted he htask' hkey hphase =>
            exact embedded_of_skip hguard he htask' hphase hedit' hkey.symm
        | save t entry save sv persisted he htask hkey hphase hsave =>
            subst he
            exact embedded_of_save hA h hdocs hmarked rfl htask hkey hphase hsave hguard.2 hedit
              rfl
      rcases marked_of_step hI hA.timers hstep hdocs hdocs' hmarked with hmarked' | hconsumes
      · rcases owed_of_step hI hA.timers hA.uncaptured hstep hdocs hdocs' howed with
          howed' | hconsumes
        · exact Or.inr ⟨r, hdocs', hle.trans (doc_le_of_step hstep (hI.docs_lt hdocs)), hmarked',
            howed'⟩
        · exact Or.inl (hconsumed hconsumes)
      · exact Or.inl (hconsumed hconsumes)
    · exact Or.inl (hembedded.step h)

/-- An edit that `scheduleSave` reports. -/
private theorem kept_of_scheduleSave {n : NodeId} {userId : UserId}
    (h : a.step lex (.scheduleSave n (some userId)) = some a') {edit : NodeId × YDoc}
    (hedit : edit ∈ reported a.server (.scheduleSave n (some userId)) a'.server) :
    a'.Kept edit := by
  obtain ⟨hstep, -, -⟩ := step_eq h
  obtain ⟨r, hr, rfl⟩ := List.mem_map.mp hedit
  have hdocs : a.server.mem.docs n = some r := Option.mem_toList.mp hr
  have hmem : a'.server.mem = a.server.mem.scheduleSave n (some userId) := by
    rw [← Option.some.inj hstep]
  obtain ⟨-, htimer, r', hdocs', -, hdirty, heditor⟩ := Memory.saveScheduled hdocs (some userId)
  have hsame := Memory.sameDocs_scheduleSave a.server.mem n (some userId)
  obtain rfl : r = r' := by
    rw [hsame.docs, hdocs] at hdocs'
    exact Option.some.inj hdocs'
  refine ⟨r, ?_, ?_, ?_, .timer a.server.mem.nextTimer ?_⟩
  · rw [hmem]
    exact hdocs'
  · rw [hmem]
    exact (hsame.doc r).ge
  · rw [hmem]
    exact ⟨hdirty, by rw [heditor userId rfl]; simp⟩
  · rw [hmem]
    exact htimer

/-- An edit that an append makes. -/
private theorem kept_of_append (hA : AuditInv a) {t : TaskId} {clientId : ClientId}
    (h : a.step lex (.resumeAppend t clientId) = some a')
    (hguard : a.Guarded (.resumeAppend t clientId) a') {edit : NodeId × YDoc}
    (hedit : edit ∈ reported a.server (.resumeAppend t clientId) a'.server) :
    a'.Embedded edit ∨ a'.Kept edit := by
  obtain ⟨hstep, hedits, -⟩ := step_eq h
  have hedit' : edit ∈ a'.edits := by
    rw [hedits]
    exact List.mem_append_right _ hedit
  obtain ⟨entry', hentry', u, hu, rfl⟩ : ∃ entry' ∈ (a'.server.queue.task t).toList,
      ∃ u ∈ entry'.payload.update.toList, (entry'.key, u) = edit := by
    simpa [reported] using hedit
  have htask' : a'.server.queue.task t = some entry' := Option.mem_toList.mp hentry'
  have hupdate' : entry'.payload.update = some u := Option.mem_toList.mp hu
  obtain ⟨r, entry, hedited, htask, hkey, hle⟩ :=
    le_of_resumeAppend hA.manager.unedited hstep ⟨entry', htask', rfl, hupdate'⟩
  have hdocs : a.server.mem.docs entry.key = some r := hguard.2.1 r hedited entry htask
  have hnone : entry.payload.update = none := by
    obtain ⟨entry₀, await, _, _, _, htask₀, hphase, -⟩ := State.resumeAppend_step a.server hstep
    rw [htask] at htask₀
    obtain rfl := Option.some.inj htask₀
    exact hA.manager.unedited t entry htask (Or.inr ⟨await, hphase⟩)
  cases step_marks hA.manager.inv hA.timers hstep with
  | appendEnded t' entry₁ he htask₁ _ hended =>
      obtain ⟨clientId', he⟩ := he
      cases he
      rw [htask] at htask₁
      obtain rfl := Option.some.inj htask₁
      rcases hended with hempty | ⟨entry₂, htask₂, hsame⟩
      · rw [hdocs] at hempty
        cases hempty
      · rw [htask'] at htask₂
        obtain rfl := Option.some.inj htask₂
        rw [hupdate', hnone] at hsame
        cases hsame
  | flush t' entry₁ q m he htask₁ hwaiting hbegun hcalm hq hmark hmem hskip =>
      obtain rfl : t = t' := by
        rcases he with he | ⟨clientId', he⟩ <;> cases he
        rfl
      rw [htask] at htask₁
      obtain rfl := Option.some.inj htask₁
      obtain rfl : r = q := by
        rw [hcalm.docs, hdocs] at hq
        exact Option.some.inj hq
      by_cases hunchanged : (m.heap r).unchanged = true
      · obtain ⟨entry₂, persisted, htask₂, -, hphase⟩ := hskip hunchanged
        rw [htask'] at htask₂
        obtain rfl := Option.some.inj htask₂
        exact Or.inl (embedded_of_skip hguard he htask' hphase hedit' rfl)
      · -- the flush of the append saves: the mark of the edit stays
        rw [if_neg hunchanged] at hmem
        have hdocs' : a'.server.mem.docs entry.key = some r := by
          rw [hmem, Memory.docs_startFlush]
          exact hq
        obtain ⟨entry₂, htask₂, hkey₂, hcaptured⟩ := hbegun
        have hbegins : Begins a.server a'.server entry.key t :=
          ⟨entry, entry₂, htask, htask₂, rfl, hA.uncaptured t entry htask hwaiting, hcaptured⟩
        rcases owed_of_begins hA.uncaptured hstep hbegins hdocs' with howed | hconsumes
        · refine Or.inr ⟨r, ?_, hle, ?_, ?_⟩
          · rw [← hkey]
            exact hdocs'
          · rw [hmem]
            exact Memory.marked_startFlush (hmark ⟨clientId, rfl⟩)
          · rw [← hkey]
            exact howed
        · cases hconsumes with
          | skip t₁ entry₃ persisted he₃ htask₃ hkey₃ hphase =>
              exact Or.inl (embedded_of_skip hguard he₃ htask₃ hphase hedit'
                (hkey.symm.trans hkey₃.symm))
          | save _ _ _ _ _ he₃ => cases he₃
  | calm _ he => exact absurd rfl (he t clientId)
  | drop _ _ _ _ he => exact absurd rfl (he t clientId)
  | gone _ _ he => exact absurd rfl (he t clientId)
  | fired _ _ _ _ _ he => exact absurd rfl (he t clientId)
  | put _ _ _ _ he => exact absurd rfl (he t clientId)
  | scheduleSave _ _ he => cases he
  | saved _ _ _ _ _ _ he => cases he

/-- **The invariant is kept** by the steps that clear no mark of an edit still to be
embedded. -/
theorem AuditInv.step (hA : AuditInv a) (h : a.step lex e = some a')
    (hguard : a.Guarded e a') : AuditInv a' := by
  obtain ⟨hstep, hedits, -⟩ := step_eq h
  refine ⟨hA.manager.step hstep, timerInv_of_step hA.manager.inv hA.timers hstep,
    uncaptured_of_step hA.uncaptured hstep, fun edit hedit => ?_⟩
  rw [hedits] at hedit
  rcases List.mem_append.mp hedit with hold | hnew
  · exact kept_of_old hA h hguard hold
  · unfold reported at hnew
    split at hnew
    · exact Or.inr (kept_of_scheduleSave h hnew)
    · exact kept_of_append hA h hguard hnew
    · cases hnew

private theorem timers_of_reachable {nodes : NodeId → Option NodeRow}
    (h : Reachable (step lex) (init nodes) a) : Inv a.server ∧ a.server.mem.TimerInv := by
  refine h.invariant (I := fun a => Inv a.server ∧ a.server.mem.TimerInv)
    ⟨inv_init nodes, Memory.timerInv_of_none (fun _ => rfl) fun _ => rfl⟩ ?_
  intro a e a' hstep hI
  exact ⟨hI.1.step (step_eq hstep).1, timerInv_of_step hI.1 hI.2 (step_eq hstep).1⟩

/-- **Every edit is embedded again**, in the runs in which no mark is cleared for
an edit that has not been embedded. -/
theorem reembedded (lex : Lexical) (nodes : NodeId → Option NodeRow) {es : List Event}
    (hguard : Along (step lex) Guarded (init nodes) es) :
    Along (step lex) (fun _ _ a' => a'.Reembedded) (init nodes) es := by
  refine along_of_invariant (I := AuditInv) ?_ (auditInv_init nodes) hguard
  intro a e a' hstep hA hg
  have hA' := hA.step hstep hg
  exact ⟨hA', hA'.atRest⟩

/-- An edit is saved and embedded. -/
def embeddedRun : List Event :=
  openNode ++ editAndFlush ⟨{(3, 0)}, ∅⟩ 0 0 ++ flushSaved 0 0

theorem embeddedRun_reembedded :
    (exec (step .plain) (init oneNode) embeddedRun).isSome = true ∧
      Along (step .plain) (fun _ _ a' => a'.Reembedded) (init oneNode) embeddedRun :=
  ⟨by decide +kernel, reembedded .plain oneNode (by decide +kernel)⟩

/-- A second edit comes while the save of the first one is pending; it is saved by
a flush of its own, which finds no mark. -/
def consumedMark : List Event :=
  openNode ++ editAndFlush ⟨{(3, 0)}, ∅⟩ 0 0 ++
    [.applyToDoc 1 ⟨{(3, 1)}, ∅⟩, .scheduleSave 1 (some 9)] ++ flushSaved 0 0 ++
    [.fireTimer 1, .startTask 1, .redisReply .ok, .updateNodeRow 1 .ok 10,
      .attachmentsSynced 1 true, .continueFlush 1, .resumeTask 1]

theorem consumedMark_not_reembedded :
    ¬ Along (step .plain) (fun _ _ a' => a'.Reembedded) (init oneNode) consumedMark := by
  intro h
  have hrun : (exec (step .plain) (init oneNode) consumedMark).any (fun a =>
      (∃ edit ∈ a.edits, edit.1 = 1 ∧ ¬ a.Embedded edit) ∧
        (∀ timer < a.server.mem.nextTimer, a.server.mem.timers timer ≠ some (.save 1)) ∧
        ∀ t < a.server.queue.next, ∀ entry ∈ a.server.queue.task t,
          entry.payload.flushPending = false ∧ entry.payload.phase.failed = false) = true := by
    decide +kernel
  obtain ⟨a, ha, hrun⟩ := (Option.any_eq_true _ _).mp hrun
  obtain ⟨⟨edit, hedit, hn, hnot⟩, htimers, htasks⟩ := of_decide_eq_true hrun
  have hI : Inv a.server ∧ a.server.mem.TimerInv := timers_of_reachable ⟨consumedMark, ha⟩
  have hquiet : a.server.Quiet edit.1 := by
    rw [hn]
    refine ⟨fun timer htimer => htimers timer (hI.2.live htimer) htimer, ?_, ?_⟩
    · intro t entry htask _
      exact (htasks t (a.server.queue.lt_next htask) entry htask).1
    · intro t entry hlast
      exact (htasks t (a.server.queue.lt_next hlast.task) entry hlast.task).2
  have hreembedded : a.Reembedded := h.state (fun _ hmem => by cases hmem) ha
  exact hnot (hreembedded edit hedit hquiet)

end Audit

end AideepWebsocket.DocManager
