import AideepWebsocket.DocManager.Invariant

/-!
# Do the saves of one node overlap?

`runExclusive` lets the tasks of a node run one at a time.  The saves of a node
would inherit this if a flush ended only after its `saveToDb` has.  But a flush
ends as soon as `Promise.all` does, and that promise rejects with the first of
its two: when `saveToRedis` rejects first, the flush is over while its
`saveToDb` is still pending.  Such a call is *orphaned* here.

Orphans are the only way to an overlap.  `savesSerial_iff` states this as an
equivalence over runs: at most one save per node is ever pending, and the
transactions of a node end in the order in which their snapshots were captured,
exactly in the runs in which no flush calls `saveToDb` for a node that has an
orphaned save.
-/

namespace AideepWebsocket.DocManager

open Library

variable {lex : Lexical} {s s' : State} {e : Event}

/-- At most one `saveToDb` call per node is pending. -/
def SavesSerial (s : State) : Prop :=
  ∀ i j c d, s.saves i = some c → s.saves j = some d → c.nodeId = d.nodeId →
    c.phase.pending = true → d.phase.pending = true → i = j

/-- The same of the saves made so far, which are all there are. -/
def SerialSoFar (s : State) : Prop :=
  ∀ i < s.nextSave, ∀ j < s.nextSave, ∀ c ∈ s.saves i, ∀ d ∈ s.saves j,
    c.nodeId = d.nodeId → c.phase.pending = true → d.phase.pending = true → i = j

instance (s : State) : Decidable (SerialSoFar s) := by
  unfold SerialSoFar
  infer_instance

theorem along_savesSerial {nodes : NodeId → Option NodeRow} {es : List Event}
    (h : Along (step lex) (fun _ _ s' => SerialSoFar s') (State.init nodes) es) :
    Along (step lex) (fun _ _ s' => SavesSerial s') (State.init nodes) es := by
  refine along_of_invariant (I := Inv) ?_ (inv_init nodes) h
  intro s e s' hstep hI hserial
  have hI' := hI.step hstep
  refine ⟨hI', fun i j c d hc hd => ?_⟩
  exact hserial i (hI'.save_lt hc) j (hI'.save_lt hd) c hc d hd

/-- When the transaction of a save ends, no older snapshot of the node is still
on its way to the row. -/
def EndsInOrder (s : State) (e : Event) : Prop :=
  ∀ i reply now c j d, e = .updateNodeRow i reply now → s.saves i = some c →
    s.saves j = some d → c.nodeId = d.nodeId → d.phase = .updateNodeRow → i ≤ j

/-- The save is pending although the flush that made it has settled. -/
def Orphaned (s : State) (d : SaveCall) : Prop :=
  d.phase.pending = true ∧
    ∃ entry, s.queue.task d.task = some entry ∧ entry.payload.stage = .settled

/-- If the step calls `saveToDb` for a node, the node has no orphaned save. -/
def NoOrphanAtCall (s s' : State) : Prop :=
  ∀ c, s'.nextSave = s.nextSave + 1 → s'.saves s.nextSave = some c →
    ∀ i d, s.saves i = some d → d.nodeId = c.nodeId → ¬ Orphaned s d

/-- Every pending save is awaited by its task, or orphaned by it. -/
def SavesTasked (s : State) : Prop :=
  ∀ i c, s.saves i = some c → c.phase.pending = true →
    ∃ entry, s.queue.task c.task = some entry ∧ entry.key = c.nodeId ∧
      (entry.payload.stage = .settled ∨
        ∃ r sv redis failure, entry.payload.phase = .saving r i sv redis failure)

theorem savesTasked_step (hT : SavesTasked s) (h : step lex s e = some s') :
    SavesTasked s' := by
  intro i c' hc' hpending'
  have hold : ∀ c, s.saves i = some c → c' = { c with phase := c'.phase } →
      c.phase.pending = true → ∃ entry, s'.queue.task c'.task = some entry ∧
        entry.key = c'.nodeId ∧ (entry.payload.stage = .settled ∨
          ∃ r sv redis failure, entry.payload.phase = .saving r i sv redis failure) := by
    intro c hc hsame hpending
    obtain ⟨entry, hentry, hkey, hcase⟩ := hT i c hc hpending
    obtain ⟨entry', hentry', hkey', hstep⟩ := step_task h hentry
    have htask : c'.task = c.task := by rw [hsame]
    have hnode : c'.nodeId = c.nodeId := by rw [hsame]
    refine ⟨entry', by rw [htask, hentry'], by rw [hkey', hkey, hnode], ?_⟩
    rcases hcase with hsettled | hsaving
    · exact Or.inl (hstep.of_settled hsettled)
    · obtain ⟨r, sv, redis, failure, hphase⟩ := hsaving
      rcases hstep.of_saving hphase with
        hsettled | ⟨redis', failure', hphase'⟩ | ⟨p, job, -, hresolved⟩
      · exact Or.inl hsettled
      · exact Or.inr ⟨r, sv, redis', failure', hphase'⟩
      · -- the save it awaits is pending, not resolved
        rw [hc] at hresolved
        rw [Option.some.inj hresolved] at hpending
        cases hpending
  rcases save_of_step h hc' with ⟨c, hc, hsame, -, hpending⟩ | ⟨rfl, hcall⟩
  · exact hold c hc hsame (hpending hpending')
  · obtain ⟨entry, hentry, hkey, hphase, -⟩ := hcall.task
    exact ⟨entry, hentry, hkey, Or.inr ⟨_, _, _, _, hphase⟩⟩

/-- The step lemma: without an orphan at the call, the new save is alone. -/
private theorem savesSerial_step (hT : SavesTasked s) (hS : SavesSerial s)
    (h : step lex s e = some s') (hG : NoOrphanAtCall s s') : SavesSerial s' := by
  -- the save just made, against one that was pending before
  have hnew : ∀ c i d, SaveCalled s e s' c → s.saves i = some d → d.nodeId = c.nodeId →
      d.phase.pending = true → False := by
    intro c i d hcall hd hnode hpending
    obtain ⟨entry, hentry, hkey, hcase⟩ := hT i d hd hpending
    rcases hcase with hsettled | ⟨r, sv, redis, failure, hsaving⟩
    · have hc : s'.saves s.nextSave = some c := by rw [hcall.saves, Function.update_self]
      exact hG c hcall.nextSave hc i d hd hnode ⟨hpending, entry, hentry, hsettled⟩
    · have hrun : entry.payload.stage = .running := by simp [Task.stage, hsaving, Phase.stage]
      have htask := hcall.alone hentry (hkey.trans hnode) hrun
      obtain ⟨entry₀, hentry₀, -, hphase⟩ := hcall.before
      rw [← htask, hentry] at hentry₀
      cases hentry₀
      rcases hphase with hphase | ⟨await, hphase⟩ <;>
        · rw [hsaving] at hphase
          cases hphase
  intro i j c d hc hd hnode hpc hpd
  rcases save_of_step h hc with ⟨c₀, hc₀, hsame, -, hpc₀⟩ | ⟨rfl, hcall⟩
  · rcases save_of_step h hd with ⟨d₀, hd₀, hsame', -, hpd₀⟩ | ⟨rfl, hcall⟩
    · refine hS i j c₀ d₀ hc₀ hd₀ ?_ (hpc₀ hpc) (hpd₀ hpd)
      rw [hsame, hsame'] at hnode
      exact hnode
    · refine (hnew d i c₀ hcall hc₀ ?_ (hpc₀ hpc)).elim
      rw [hsame] at hnode
      exact hnode
  · rcases save_of_step h hd with ⟨d₀, hd₀, hsame', -, hpd₀⟩ | ⟨rfl, -⟩
    · refine (hnew c j d₀ hcall hd₀ ?_ (hpd₀ hpd)).elim
      rw [hsame'] at hnode
      exact hnode.symm
    · rfl

/-- Only a transaction that is under way can end. -/
theorem phase_of_updateNodeRow {i : SaveId} {reply : Reply} {now : ℕ} {c : SaveCall}
    (h : step lex s (.updateNodeRow i reply now) = some s') (hc : s.saves i = some c) :
    c.phase = .updateNodeRow := by
  simp only [step, State.updateNodeRow, hc] at h
  split at h
  · next hphase => exact hphase
  · cases h

/-- **The saves of a node do not overlap exactly in the runs without a call over
an orphan.**  What holds in those runs: after every step at most one save per
node is pending, and the transactions of a node end in the order in which their
snapshots were captured. -/
theorem savesSerial_iff (lex : Lexical) (nodes : NodeId → Option NodeRow) (es : List Event) :
    Along (step lex) (fun s e s' => SavesSerial s' ∧ EndsInOrder s e) (State.init nodes) es ↔
      Along (step lex) (fun s _ s' => NoOrphanAtCall s s') (State.init nodes) es := by
  constructor
  · intro h
    refine along_of_invariant (I := Inv) ?_ (inv_init nodes) h
    rintro s e s' hstep hI ⟨hserial, -⟩
    refine ⟨hI.step hstep, ?_⟩
    rintro c hnext hc i d hd hnode ⟨hpending, -⟩
    -- the orphan and the new save would both be pending afterwards
    have hcall := saveCalled_of_step hstep hnext hc
    have hi := hI.save_lt hd
    have hd' : s'.saves i = some d := by rw [hcall.saves, Function.update_of_ne hi.ne, hd]
    have heq : i = s.nextSave :=
      hserial i s.nextSave d c hd' hc hnode hpending (by rw [hcall.phase]; rfl)
    exact absurd heq hi.ne
  · intro h
    refine along_of_invariant (I := fun s => Inv s ∧ SavesTasked s ∧ SavesSerial s) ?_
      ⟨inv_init nodes, by simp [SavesTasked, State.init], by simp [SavesSerial, State.init]⟩ h
    rintro s e s' hstep ⟨hI, hT, hS⟩ hG
    refine ⟨⟨hI.step hstep, savesTasked_step hT hstep, savesSerial_step hT hS hstep hG⟩,
      savesSerial_step hT hS hstep hG, ?_⟩
    intro i reply now c j d he hc hd hnode hphase
    subst he
    have hpending : c.phase.pending = true := by
      rw [phase_of_updateNodeRow hstep hc]
      rfl
    exact (hS i j c d hc hd hnode hpending (by rw [hphase]; rfl)).le

/-- The first flush loses its `saveToRedis` and settles while its `saveToDb` is
still pending; the next flush calls `saveToDb` beside it. -/
def overlappingRun : List Event :=
  openNode ++ editAndFlush ⟨{(3, 0)}, ∅⟩ 0 0 ++
    [.redisReply .failed, .continueFlush 0, .resumeTask 0] ++ editAndFlush ⟨{(3, 1)}, ∅⟩ 1 1

theorem overlappingRun_overlaps :
    ¬ Along (step .plain) (fun s e s' => SavesSerial s' ∧ EndsInOrder s e)
      (State.init oneNode) overlappingRun := by
  intro h
  have hrun : (exec (step .plain) (State.init oneNode) overlappingRun).any (fun s =>
      (s.saves 0).any (fun c => c.nodeId = 1 ∧ c.phase.pending) &&
      (s.saves 1).any (fun c => c.nodeId = 1 ∧ c.phase.pending)) = true := by
    decide +kernel
  obtain ⟨s, hs, hpending⟩ := (Option.any_eq_true _ _).mp hrun
  have hserial : SavesSerial s :=
    (h.mono fun _ _ _ hP => hP.1).state (by simp [SavesSerial, State.init]) hs
  rw [Bool.and_eq_true] at hpending
  obtain ⟨c, hc, hc'⟩ := (Option.any_eq_true _ _).mp hpending.1
  obtain ⟨d, hd, hd'⟩ := (Option.any_eq_true _ _).mp hpending.2
  obtain ⟨hcnode, hcpending⟩ := of_decide_eq_true hc'
  obtain ⟨hdnode, hdpending⟩ := of_decide_eq_true hd'
  have heq : (0 : SaveId) = 1 :=
    hserial 0 1 c d hc hd (hcnode.trans hdnode.symm) hcpending hdpending
  cases heq

end AideepWebsocket.DocManager
