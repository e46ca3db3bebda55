import AideepWebsocket.DocManager.Operations
import AideepWebsocket.Library.ReadCommitted

/-!
# The transaction of updateNodeRow

`YjsDocManager` sees `updateNodeRow` as one step.  It is a transaction of two
statements: `findUnique` reads the content of the row, and `update` writes the whole
content back, with another `markdownBody`.  The database runs it at READ COMMITTED, and
other transactions of the API server write the same rows.

* `Transaction` — where a call stands between its statements;
* `step` — the statements of the calls, and whatever the other transactions do;
* `serial_updateNodeRow` — a call that nobody interrupts does what the step of the
  manager does;
* `keepsForeign_iff` — in any schedule, the commit keeps the other keys that the others
  have committed if and only if nobody has changed them between the two statements.
-/

namespace AideepWebsocket.CrdtService

open Library
open DocManager (NodeRow NodeContent SaveId SaveCall Persisted Reply)

namespace RowUpdate

/-- Where the transaction of an `updateNodeRow` call stands. -/
inductive TransactionPhase
  | findUnique
  | found (content : Option NodeContent)
  | updated (persisted : Persisted)
  | committed (persisted : Persisted)
  | rejected
  deriving DecidableEq

structure Transaction where
  call : SaveCall
  phase : TransactionPhase
  deriving DecidableEq

/-- The transactions of the calls, and those of other writers. -/
abbrev TransactionId := SaveId ⊕ ℕ

structure State where
  table : Table TransactionId NodeId NodeRow
  calls : SaveId → Option Transaction

inductive Event
  | updateNodeRow (save : SaveId) (c : SaveCall)
  | findUnique (save : SaveId)
  | update (save : SaveId) (now : ℕ)
  | commit (save : SaveId)
  /-- The transaction fails: a timeout, or a lost connection. -/
  | fail (save : SaveId)
  /-- A statement, or the end, of another transaction. -/
  | other (op : Table.Op ℕ NodeId NodeRow)

/-- The transaction that an event belongs to. -/
def Event.owner : Event → TransactionId
  | .updateNodeRow save _ => .inl save
  | .findUnique save => .inl save
  | .update save _ => .inl save
  | .commit save => .inl save
  | .fail save => .inl save
  | .other op => .inr op.owner

/-- The row that `update` writes over `row`: the content is the one that `findUnique`
has found, with the new `markdownBody`. -/
def updatedRow (found : Option NodeContent) (row : NodeRow) (c : SaveCall) (now : ℕ) :
    NodeRow :=
  let currentContent := found.getD ⟨none, none, []⟩
  { row with
    yjsState := some c.state
    content := some { currentContent with markdownBody := some c.markdownText }
    version := row.version + 1
    updatedAt := now }

namespace State

def init (nodes : NodeId → Option NodeRow) : State := ⟨.init nodes, fun _ => none⟩

def setCall (s : State) (save : SaveId) (c : SaveCall) (phase : TransactionPhase) : State :=
  { s with calls := Function.update s.calls save (some ⟨c, phase⟩) }

/-- The call ends, and its transaction with it. -/
def finish (s : State) (save : SaveId) (c : SaveCall) (phase : TransactionPhase)
    (op : Table.Op TransactionId NodeId NodeRow) : Option State :=
  (s.table.step op).map fun table => { s with table := table }.setCall save c phase

/-- `findUnique`: a node without a row is a `NodeGoneError`. -/
def findUnique (s : State) (save : SaveId) (c : SaveCall) : Option State :=
  match s.table.see (.inl save) c.nodeId with
  | some row => some (s.setCall save c (.found row.content))
  | none => s.finish save c .rejected (.rollback (.inl save))

/-- `update`, which waits for the lock of the row, and rejects if there is no row. -/
def update (s : State) (save : SaveId) (c : SaveCall) (found : Option NodeContent) (now : ℕ) :
    Option State :=
  if s.table.grants (.inl save) c.nodeId then
    match s.table.see (.inl save) c.nodeId with
    | some row =>
        let row' := updatedRow found row c now
        s.finish save c (.updated ⟨row'.version, now⟩)
          (.write (.inl save) c.nodeId (some row'))
    | none => s.finish save c .rejected (.rollback (.inl save))
  else none

end State

/-- One step of the calls, or of the other transactions. -/
def step (s : State) : Event → Option State
  | .updateNodeRow save c =>
      match s.calls save with
      | none => some (s.setCall save c .findUnique)
      | some _ => none
  | .findUnique save =>
      match s.calls save with
      | some ⟨c, .findUnique⟩ => s.findUnique save c
      | _ => none
  | .update save now =>
      match s.calls save with
      | some ⟨c, .found content⟩ => s.update save c content now
      | _ => none
  | .commit save =>
      match s.calls save with
      | some ⟨c, .updated persisted⟩ =>
          s.finish save c (.committed persisted) (.commit (.inl save))
      | _ => none
  | .fail save =>
      match s.calls save with
      | some ⟨c, .findUnique⟩ => s.finish save c .rejected (.rollback (.inl save))
      | some ⟨c, .found _⟩ => s.finish save c .rejected (.rollback (.inl save))
      | some ⟨c, .updated _⟩ => s.finish save c .rejected (.rollback (.inl save))
      | _ => none
  | .other op => (s.table.step (op.map .inr)).map fun table => { s with table := table }

variable {s s' : State} {e : Event} {save : SaveId} {c : SaveCall}

/-! ### One step -/

/-- How far a transaction has come. -/
def TransactionPhase.rank : TransactionPhase → ℕ
  | .findUnique => 0
  | .found _ => 1
  | .updated _ => 2
  | .committed _ => 3
  | .rejected => 3

/-- **What a step can do.** -/
inductive StepCase (s : State) (e : Event) (s' : State) : Prop
  | start (save : SaveId) (c : SaveCall) (he : e = .updateNodeRow save c)
      (hnone : s.calls save = none) (hs' : s' = s.setCall save c .findUnique)
  | found (save : SaveId) (c : SaveCall) (row : NodeRow) (he : e = .findUnique save)
      (hbefore : s.calls save = some ⟨c, .findUnique⟩)
      (hsee : s.table.see (.inl save) c.nodeId = some row)
      (hs' : s' = s.setCall save c (.found row.content))
  /-- The row is written, or the transaction ends. -/
  | finish (save : SaveId) (c : SaveCall) (phase phase' : TransactionPhase)
      (op : Table.Op TransactionId NodeId NodeRow) (howner : e.owner = .inl save)
      (hbefore : s.calls save = some ⟨c, phase⟩) (hrank : phase.rank < phase'.rank)
      (hop : (op = .commit (.inl save) ∨ op = .rollback (.inl save)) ∨
        ∃ v persisted, op = .write (.inl save) c.nodeId v ∧ phase' = .updated persisted)
      (htable : s.table.step op = some s'.table)
      (hcalls : s'.calls = Function.update s.calls save (some ⟨c, phase'⟩))
  | other (op : Table.Op ℕ NodeId NodeRow) (he : e = .other op)
      (htable : s.table.step (op.map .inr) = some s'.table) (hcalls : s'.calls = s.calls)

/-- What a transaction leaves when it makes an operation. -/
private theorem finish_eq_some {phase : TransactionPhase}
    {op : Table.Op TransactionId NodeId NodeRow} (h : s.finish save c phase op = some s') :
    s.table.step op = some s'.table ∧
      s'.calls = Function.update s.calls save (some ⟨c, phase⟩) := by
  obtain ⟨table, htable, rfl⟩ := Option.map_eq_some_iff.mp h
  exact ⟨htable, rfl⟩

private theorem StepCase.of_rejected {phase : TransactionPhase} (howner : e.owner = .inl save)
    (hbefore : s.calls save = some ⟨c, phase⟩) (hrank : phase.rank < 3)
    (h : s.finish save c .rejected (.rollback (.inl save)) = some s') : StepCase s e s' := by
  obtain ⟨htable, hcalls⟩ := finish_eq_some h
  exact .finish save c phase .rejected _ howner hbefore hrank (Or.inl (Or.inr rfl)) htable hcalls

theorem step_cases (h : step s e = some s') : StepCase s e s' := by
  cases e with
  | updateNodeRow save c =>
      simp only [step] at h
      split at h
      · next hnone => exact .start save c rfl hnone (Option.some.inj h).symm
      · cases h
  | findUnique save =>
      simp only [step] at h
      split at h
      · next c hbefore =>
          unfold State.findUnique at h
          split at h
          · next row hsee => exact .found save c row rfl hbefore hsee (Option.some.inj h).symm
          · exact .of_rejected rfl hbefore (by decide) h
      · cases h
  | update save now =>
      simp only [step] at h
      split at h
      · next c content hbefore =>
          unfold State.update at h
          split at h
          · split at h
            · obtain ⟨htable, hcalls⟩ := finish_eq_some h
              exact .finish save c (.found content) (.updated _) _ rfl hbefore
                (show 1 < 2 from Nat.one_lt_two) (Or.inr ⟨_, _, rfl, rfl⟩) htable hcalls
            · exact .of_rejected rfl hbefore (show 1 < 3 by omega) h
          · cases h
      · cases h
  | commit save =>
      simp only [step] at h
      split at h
      · next c persisted hbefore =>
          obtain ⟨htable, hcalls⟩ := finish_eq_some h
          exact .finish save c (.updated persisted) (.committed persisted) _ rfl hbefore
            (show 2 < 3 by omega) (Or.inl (Or.inl rfl)) htable hcalls
      · cases h
  | fail save =>
      simp only [step] at h
      split at h
      · next c hbefore => exact .of_rejected rfl hbefore (by decide) h
      · next c content hbefore =>
          exact .of_rejected rfl hbefore (show 1 < 3 by omega) h
      · next c persisted hbefore => exact .of_rejected rfl hbefore (show 2 < 3 by omega) h
      · cases h
  | other op =>
      obtain ⟨table, htable, rfl⟩ := Option.map_eq_some_iff.mp h
      exact .other op rfl htable rfl

/-- The table is shared at READ COMMITTED. -/
theorem serves : Table.Serves step State.table Event.owner := by
  intro s e s' h
  cases step_cases h with
  | start save c _ _ hs' => exact Or.inl (by rw [hs']; rfl)
  | found save c row _ _ _ hs' => exact Or.inl (by rw [hs']; rfl)
  | finish save c phase phase' op howner _ _ hop htable =>
      refine Or.inr ⟨op, ?_, htable⟩
      rw [howner]
      rcases hop with (rfl | rfl) | ⟨v, p, rfl, -⟩ <;> rfl
  | other op he htable =>
      subst he
      exact Or.inr ⟨op.map .inr, Table.Op.owner_map Sum.inr op, htable⟩

/-! ### The calls of a run -/

/-- A call is left alone by the events of others, and brought forward by its own. -/
private theorem forward_of_step (h : step s e = some s') {phase : TransactionPhase}
    (hcall : s.calls save = some ⟨c, phase⟩) :
    ∃ phase', s'.calls save = some ⟨c, phase'⟩ ∧
      (phase' = phase ∧ e.owner ≠ .inl save ∨ phase.rank < phase'.rank) := by
  have hset : ∀ (save' : SaveId) (c' : SaveCall) (phase₀ phase₁ : TransactionPhase),
      e.owner = .inl save' → s.calls save' = some ⟨c', phase₀⟩ → phase₀.rank < phase₁.rank →
      s'.calls = Function.update s.calls save' (some ⟨c', phase₁⟩) →
      ∃ phase', s'.calls save = some ⟨c, phase'⟩ ∧
        (phase' = phase ∧ e.owner ≠ .inl save ∨ phase.rank < phase'.rank) := by
    intro save' c' phase₀ phase₁ howner hbefore hrank hcalls
    by_cases hsave : save = save'
    · subst hsave
      rw [hbefore] at hcall
      cases hcall
      exact ⟨phase₁, by rw [hcalls, Function.update_self], Or.inr hrank⟩
    · refine ⟨phase, by rw [hcalls, Function.update_of_ne hsave, hcall], Or.inl ⟨rfl, ?_⟩⟩
      rw [howner]
      exact fun heq => hsave (Sum.inl.inj heq).symm
  cases step_cases h with
  | start save' c' he hnone hs' =>
      have hsave : save ≠ save' := by
        rintro rfl
        rw [hnone] at hcall
        cases hcall
      refine ⟨phase, ?_, Or.inl ⟨rfl, ?_⟩⟩
      · rw [hs']
        exact (Function.update_of_ne hsave ..).trans hcall
      · rw [he]
        exact fun heq => hsave (Sum.inl.inj heq).symm
  | found save' c' row he hbefore _ hs' =>
      exact hset save' c' .findUnique (.found row.content) (by rw [he]; rfl) hbefore
        Nat.zero_lt_one (by rw [hs']; rfl)
  | finish save' c' phase₀ phase₁ op howner hbefore hrank _ _ hcalls =>
      exact hset save' c' phase₀ phase₁ howner hbefore hrank hcalls
  | other op he _ hcalls =>
      refine ⟨phase, by rw [hcalls, hcall], Or.inl ⟨rfl, ?_⟩⟩
      rw [he]
      exact Sum.inr_ne_inl

/-- A call that has not been brought forward by a run has had no event in it. -/
theorem forward_of_exec {es : List Event} (hes : exec step s es = some s')
    {phase : TransactionPhase} (hcall : s.calls save = some ⟨c, phase⟩) :
    ∃ phase', s'.calls save = some ⟨c, phase'⟩ ∧
      (phase' = phase ∧ (∀ e ∈ es, e.owner ≠ .inl save) ∨ phase.rank < phase'.rank) := by
  induction es generalizing s phase with
  | nil =>
      obtain rfl := Option.some.inj hes
      exact ⟨phase, hcall, Or.inl ⟨rfl, fun e he => by cases he⟩⟩
  | cons e es ih =>
      rw [exec_cons, Option.bind_eq_some_iff] at hes
      obtain ⟨s₁, hstep, hes⟩ := hes
      obtain ⟨phase₁, hcall₁, hfirst⟩ := forward_of_step hstep hcall
      obtain ⟨phase', hcall', hrest⟩ := ih hes hcall₁
      refine ⟨phase', hcall', ?_⟩
      rcases hfirst with ⟨rfl, howner⟩ | hlt
      · refine hrest.imp_left fun ⟨hphase, howners⟩ => ⟨hphase, fun x hx => ?_⟩
        rcases List.mem_cons.mp hx with rfl | hx
        · exact howner
        · exact howners x hx
      · rcases hrest with ⟨rfl, -⟩ | hlt'
        · exact Or.inr hlt
        · exact Or.inr (hlt.trans hlt')

/-- A call that has not updated its row, or has ended, holds no lock. -/
def IdleInv (s : State) : Prop :=
  ∀ save, (∀ c persisted, s.calls save ≠ some ⟨c, .updated persisted⟩) →
    s.table.Idle (.inl save)

theorem idleInv_init (nodes : NodeId → Option NodeRow) : IdleInv (State.init nodes) :=
  fun save _ => Table.idle_init nodes (Sum.inl save : TransactionId)

theorem idleInv_of_step (hI : IdleInv s) (h : step s e = some s') : IdleInv s' := by
  intro save hnot
  cases step_cases h with
  | start save' c' he hnone hs' =>
      rw [hs'] at hnot ⊢
      refine hI save fun c persisted hcall => ?_
      have hsave : save ≠ save' := by
        rintro rfl
        rw [hnone] at hcall
        cases hcall
      exact hnot c persisted ((Function.update_of_ne hsave ..).trans hcall)
  | found save' c' row he hbefore _ hs' =>
      rw [hs'] at hnot ⊢
      refine hI save fun c persisted hcall => ?_
      have hsave : save ≠ save' := by
        rintro rfl
        rw [hbefore] at hcall
        cases hcall
      exact hnot c persisted ((Function.update_of_ne hsave ..).trans hcall)
  | finish save' c' phase phase' op howner hbefore hrank hop htable hcalls =>
      by_cases hsave : save = save'
      · subst hsave
        rcases hop with hop | ⟨v, persisted, -, rfl⟩
        · exact Table.idle_of_ended hop htable
        · exact absurd (by rw [hcalls, Function.update_self]) (hnot c' persisted)
      · have hold : s.table.Idle (.inl save) := by
          refine hI save fun c persisted hcall => hnot c persisted ?_
          rw [hcalls, Function.update_of_ne hsave, hcall]
        refine hold.step htable ?_
        have hne : (Sum.inl save' : TransactionId) ≠ .inl save :=
          fun heq => hsave (Sum.inl.inj heq).symm
        rcases hop with (rfl | rfl) | ⟨v, p, rfl, -⟩ <;> exact hne
  | other op he htable hcalls =>
      rw [hcalls] at hnot
      refine (hI save hnot).step htable ?_
      rw [Table.Op.owner_map]
      exact Sum.inr_ne_inl

/-! ### A call that nobody interrupts -/

/-- **The step of the manager.**  A transaction that runs from beginning to end, with
nobody else in the row, leaves the table as `updateNodeRow` of the manager does. -/
theorem serial_updateNodeRow {m : DocManager.State} {row : NodeRow} {now : ℕ}
    (hsave : m.saves save = some c) (hphase : c.phase = .updateNodeRow)
    (hrow : m.nodes c.nodeId = some row) (hcommitted : s.table.committed = m.nodes)
    (hfree : ∀ k, s.table.uncommitted k = none) (hnone : s.calls save = none) :
    ∃ s' m', exec step s [.updateNodeRow save c, .findUnique save, .update save now,
        .commit save] = some s' ∧
      m.updateNodeRow save .ok now = some m' ∧ s'.table.committed = m'.nodes := by
  have hsee : s.table.see (.inl save) c.nodeId = some row := by
    rw [Table.see_of_unheld fun v => by simp [hfree], hcommitted, hrow]
  have hgrants : s.table.grants (.inl save) c.nodeId := by
    rw [Table.grants, hfree]
    rfl
  let row' := updatedRow row.content row c now
  let written : Table TransactionId NodeId NodeRow :=
    ⟨s.table.committed,
      Function.update s.table.uncommitted c.nodeId (some (.inl save, some row'))⟩
  let ended : Table TransactionId NodeId NodeRow :=
    ⟨written.see (.inl save), written.release (.inl save)⟩
  have hstart : step s (.updateNodeRow save c) = some (s.setCall save c .findUnique) := by
    rw [step, hnone]
  have hfound : step (s.setCall save c .findUnique) (.findUnique save) =
      some ((s.setCall save c .findUnique).setCall save c (.found row.content)) := by
    simp [step, State.setCall, State.findUnique, hsee]
  have hupdated : step ((s.setCall save c .findUnique).setCall save c (.found row.content))
      (.update save now) =
        some ⟨written, Function.update s.calls save (some ⟨c, .updated ⟨row'.version, now⟩⟩)⟩ := by
    simp [step, State.setCall, State.update, State.finish, Table.step, hsee, hgrants, written,
      row']
  have hcommit : step
      ⟨written, Function.update s.calls save (some ⟨c, .updated ⟨row'.version, now⟩⟩)⟩
      (.commit save) =
        some ⟨ended, Function.update s.calls save (some ⟨c, .committed ⟨row'.version, now⟩⟩)⟩ := by
    simp [step, State.setCall, State.finish, Table.step, ended]
  refine ⟨⟨ended, Function.update s.calls save (some ⟨c, .committed ⟨row'.version, now⟩⟩)⟩,
    { m with nodes := Function.update m.nodes c.nodeId (some row') }.setSave save c
    (.syncNodeAttachments ⟨row'.version, now⟩), ?_, ?_, ?_⟩
  · rw [exec_cons, hstart, Option.bind_some, exec_cons, hfound, Option.bind_some, exec_cons,
      hupdated, Option.bind_some, exec_cons, hcommit, Option.bind_some]
    rfl
  · simp only [DocManager.State.updateNodeRow, hsave, hphase, hrow]
    rfl
  · funext k
    change written.see (.inl save) k = Function.update m.nodes c.nodeId (some row') k
    by_cases hk : k = c.nodeId
    · subst hk
      rw [Function.update_self]
      exact Table.see_of_held (Function.update_self ..)
    · rw [Function.update_of_ne hk, ← hcommitted]
      apply Table.see_of_unheld
      intro v
      change Function.update s.table.uncommitted c.nodeId _ k ≠ _
      simp [Function.update_of_ne hk, hfree]

/-! ### What the others have committed -/

/-- The content that a row has; a row that is missing, or has none, has the empty
one. -/
def contentOf (row : Option NodeRow) : NodeContent :=
  (row.bind NodeRow.content).getD ⟨none, none, []⟩

/-- The content of a node, as it was committed last. -/
def State.content (s : State) (nodeId : NodeId) : NodeContent :=
  contentOf (s.table.committed nodeId)

/-- The keys of a content that `updateNodeRow` does not mean to write. -/
def otherKeys (content : NodeContent) : NodeContent := { content with markdownBody := none }

theorem withBody_eq_iff (a b : NodeContent) (body : Option String) :
    { a with markdownBody := body } = { b with markdownBody := body } ↔
      otherKeys a = otherKeys b := by
  simp [otherKeys]

/-- What `findUnique` finds is what has been committed. -/
private theorem found_content (hI : IdleInv s) (hcall : s.calls save = some ⟨c, .findUnique⟩)
    (h : step s (.findUnique save) = some s') {found : Option NodeContent}
    (hfound : s'.calls save = some ⟨c, .found found⟩) :
    found.getD ⟨none, none, []⟩ = s.content c.nodeId := by
  have hidle : s.table.Idle (.inl save) := by
    refine hI save fun c' persisted hupdated => ?_
    rw [hcall] at hupdated
    cases hupdated
  have hcommitted := Table.see_of_unheld (hidle c.nodeId)
  rw [step, hcall] at h
  change s.findUnique save c = some s' at h
  unfold State.findUnique at h
  split at h
  · next row hsee =>
      obtain rfl := Option.some.inj h
      change Function.update s.calls save _ save = _ at hfound
      rw [Function.update_self] at hfound
      cases hfound
      rw [State.content, ← hcommitted, hsee]
      rfl
  · obtain ⟨-, hcalls⟩ := finish_eq_some h
    rw [hcalls, Function.update_self] at hfound
    cases hfound

/-- A transaction that has updated its row has written it. -/
private theorem written_of_update {found : Option NodeContent} {now : ℕ}
    (hcall : s.calls save = some ⟨c, .found found⟩)
    (h : step s (.update save now) = some s') {persisted : Persisted}
    (hupdated : s'.calls save = some ⟨c, .updated persisted⟩) :
    ∃ row, s.table.step (.write (.inl save) c.nodeId (some (updatedRow found row c now))) =
      some s'.table := by
  rw [step, hcall] at h
  change s.update save c found now = some s' at h
  unfold State.update at h
  split at h
  · split at h
    · next row _ => exact ⟨row, (finish_eq_some h).1⟩
    · obtain ⟨-, hcalls⟩ := finish_eq_some h
      rw [hcalls, Function.update_self] at hupdated
      cases hupdated
  · cases h

/-- `update` is a statement of a call that has found its row. -/
private theorem calls_of_update {now : ℕ} (h : step s (.update save now) = some s') :
    ∃ c found, s.calls save = some ⟨c, .found found⟩ := by
  simp only [step] at h
  split at h
  · next c found hcall => exact ⟨c, found, hcall⟩
  · cases h

private theorem calls_of_commit (h : step s (.commit save) = some s') :
    ∃ c persisted, s.calls save = some ⟨c, .updated persisted⟩ ∧
      s.table.step (.commit (.inl save)) = some s'.table := by
  simp only [step] at h
  split at h
  · next c persisted hcall => exact ⟨c, persisted, hcall, (finish_eq_some h).1⟩
  · cases h

/-- A call that has to be where its own event has left it was left alone since. -/
private theorem alone_between {es : List Event} {s₁ s₂ : State} {c' : SaveCall}
    {phase phase' : TransactionPhase} (hown : e.owner = .inl save) (h : step s e = some s₁)
    (hes : exec step s₁ es = some s₂) (hcall : s.calls save = some ⟨c, phase⟩)
    (hcall' : s₂.calls save = some ⟨c', phase'⟩) (hrank : phase'.rank ≤ phase.rank + 1) :
    c' = c ∧ s₁.calls save = some ⟨c, phase'⟩ ∧ ∀ e ∈ es, e.owner ≠ .inl save := by
  obtain ⟨phase₁, hcall₁, hforward₁⟩ := forward_of_step h hcall
  obtain ⟨phase₂, hcall₂, hforward₂⟩ := forward_of_exec hes hcall₁
  rw [hcall'] at hcall₂
  cases hcall₂
  have hlt : phase.rank < phase₁.rank := hforward₁.resolve_left fun hsame => hsame.2 hown
  rcases hforward₂ with ⟨rfl, halone⟩ | hlt'
  · exact ⟨rfl, hcall₁, halone⟩
  · omega

/-- **Foreign writes.**  In any schedule, a call reads its row in `s₀`, writes it back
in `s₂` and commits in `s₄`.  The content that it leaves is the one that the others have
committed, up to `markdownBody`, if and only if the other keys were in `s₂` as they were
in `s₀`.  A transaction that commits after the call leaves the row that it has
written. -/
theorem keepsForeign_iff {nodes : NodeId → Option NodeRow} {between rest : List Event}
    {s₀ s₂ s₄ s₅ : State} {now : ℕ} (h₀ : Reachable step (State.init nodes) s₀)
    (hcall : s₀.calls save = some ⟨c, .findUnique⟩)
    (h₂ : exec step s₀ (.findUnique save :: between) = some s₂)
    (h₄ : exec step s₂ (.update save now :: rest) = some s₄)
    (h₅ : step s₄ (.commit save) = some s₅) :
    (s₅.content c.nodeId =
        { s₄.content c.nodeId with markdownBody := some c.markdownText } ↔
      otherKeys (s₂.content c.nodeId) = otherKeys (s₀.content c.nodeId)) ∧
    ∀ later s₆ t row s₇, exec step s₅ later = some s₆ →
      s₆.table.uncommitted c.nodeId = some (.inr t, row) →
      step s₆ (.other (.commit t)) = some s₇ → s₇.table.committed c.nodeId = row := by
  refine ⟨?_, fun later s₆ t row s₇ _ hheld h => ?_⟩
  · have hI : IdleInv s₀ :=
      h₀.invariant (idleInv_init nodes) fun _ _ _ hstep hI => idleInv_of_step hI hstep
    rw [exec_cons, Option.bind_eq_some_iff] at h₂ h₄
    obtain ⟨s₁, hfind, h₂⟩ := h₂
    obtain ⟨s₃, hupdate, h₄⟩ := h₄
    obtain ⟨c₂, found, hcall₂⟩ := calls_of_update hupdate
    obtain ⟨c₄, persisted, hcall₄, hcommit⟩ := calls_of_commit h₅
    obtain ⟨hsame₂, hcall₁, -⟩ :=
      alone_between rfl hfind h₂ hcall hcall₂ (show 1 ≤ 0 + 1 from Nat.le_refl 1)
    subst hsame₂
    obtain ⟨hsame₄, hcall₃, halone⟩ :=
      alone_between rfl hupdate h₄ hcall₂ hcall₄ (show 2 ≤ 1 + 1 from Nat.le_refl 2)
    subst hsame₄
    have hfound := found_content hI hcall hfind hcall₁
    obtain ⟨row, hwrite⟩ := written_of_update hcall₂ hupdate hcall₃
    have hwritten : contentOf (some (updatedRow found row c₄ now)) =
        { s₀.content c₄.nodeId with markdownBody := some c₄.markdownText } := by
      rw [← hfound]
      rfl
    have hothers : otherKeys (contentOf (some (updatedRow found row c₄ now))) =
        otherKeys (contentOf (s₀.table.committed c₄.nodeId)) := by
      rw [hwritten]
      rfl
    have hlast : s₅.content c₄.nodeId =
        { s₀.content c₄.nodeId with markdownBody := some c₄.markdownText } := by
      rw [State.content, (Table.committed_of_written serves hwrite h₄ halone hcommit).1]
      exact hwritten
    have hkeeps := Table.commit_keeps_iff (fun row => otherKeys (contentOf row)) serves hothers
      hwrite h₄ halone hcommit
    calc s₅.content c₄.nodeId =
          { s₄.content c₄.nodeId with markdownBody := some c₄.markdownText }
      _ ↔ otherKeys (s₀.content c₄.nodeId) = otherKeys (s₄.content c₄.nodeId) := by
          rw [hlast]
          exact withBody_eq_iff _ _ _
      _ ↔ otherKeys (s₅.content c₄.nodeId) = otherKeys (s₄.content c₄.nodeId) := by
          rw [hlast]
          rfl
      _ ↔ otherKeys (s₂.content c₄.nodeId) = otherKeys (s₀.content c₄.nodeId) := hkeeps
  · rw [step, Option.map_eq_some_iff] at h
    obtain ⟨table, htable, rfl⟩ := h
    exact (Table.committed_commit htable _).trans (Table.see_of_held hheld)

/-! ### Two schedules -/

/-- One node, whose content has one other key. -/
def oneRow : NodeId → Option NodeRow :=
  fun nodeId => if nodeId = 0 then some ⟨none, some ⟨none, some "a", [("title", "old")]⟩, 0, 0,
    0, none⟩ else none

def saveOne : SaveCall := ⟨0, 0, 0, ⟨∅, ∅⟩, "b", 0, "", .updateNodeRow⟩

/-- Another transaction renames the node, and commits. -/
def rename : List Event :=
  [.other (.write 0 0 (some ⟨none, some ⟨none, some "a", [("title", "new")]⟩, 0, 1, 0, none⟩)),
   .other (.commit 0)]

/-- The rename is committed before the call reads the row: it stays. -/
theorem keepsForeign_renamedFirst :
    ∃ s₀ s₂ s₄ s₅ : State,
      exec step (State.init oneRow) (rename ++ [.updateNodeRow 0 saveOne]) = some s₀ ∧
      exec step s₀ [.findUnique 0] = some s₂ ∧ exec step s₂ [.update 0 5] = some s₄ ∧
      step s₄ (.commit 0) = some s₅ ∧
      (s₅.content 0 = { s₄.content 0 with markdownBody := some "b" } ↔
        otherKeys (s₂.content 0) = otherKeys (s₀.content 0)) ∧
      s₅.content 0 = ⟨none, some "b", [("title", "new")]⟩ := by
  obtain ⟨s₀, h₀, hs₀⟩ := (Option.any_eq_true _ _).mp
    (show (exec step (State.init oneRow) (rename ++ [.updateNodeRow 0 saveOne])).any
      (fun s₀ => decide (s₀.calls 0 = some ⟨saveOne, .findUnique⟩) &&
        (exec step s₀ [.findUnique 0]).any fun s₂ => (exec step s₂ [.update 0 5]).any fun s₄ =>
          (step s₄ (.commit 0)).any fun s₅ =>
            decide (s₅.content 0 = ⟨none, some "b", [("title", "new")]⟩)) = true by
      decide +kernel)
  rw [Bool.and_eq_true] at hs₀
  obtain ⟨s₂, h₂, hs₂⟩ := (Option.any_eq_true _ _).mp hs₀.2
  obtain ⟨s₄, h₄, hs₄⟩ := (Option.any_eq_true _ _).mp hs₂
  obtain ⟨s₅, h₅, hs₅⟩ := (Option.any_eq_true _ _).mp hs₄
  exact ⟨s₀, s₂, s₄, s₅, h₀, h₂, h₄, h₅,
    (keepsForeign_iff ⟨_, h₀⟩ (of_decide_eq_true hs₀.1) h₂ h₄ h₅).1, of_decide_eq_true hs₅⟩

/-- The rename is committed between the two statements: the title is the old one again. -/
theorem renamedBetween_lost :
    ∃ s₀ s₂ s₄ s₅ : State,
      exec step (State.init oneRow) [.updateNodeRow 0 saveOne] = some s₀ ∧
      exec step s₀ (.findUnique 0 :: rename) = some s₂ ∧
      exec step s₂ [.update 0 5] = some s₄ ∧ step s₄ (.commit 0) = some s₅ ∧
      s₂.content 0 = ⟨none, some "a", [("title", "new")]⟩ ∧
      s₅.content 0 = ⟨none, some "b", [("title", "old")]⟩ := by
  obtain ⟨s₀, h₀, hs₀⟩ := (Option.any_eq_true _ _).mp
    (show (exec step (State.init oneRow) [.updateNodeRow 0 saveOne]).any
      (fun s₀ => (exec step s₀ (.findUnique 0 :: rename)).any fun s₂ =>
        (exec step s₂ [.update 0 5]).any fun s₄ => (step s₄ (.commit 0)).any fun s₅ =>
          decide (s₂.content 0 = ⟨none, some "a", [("title", "new")]⟩ ∧
            s₅.content 0 = ⟨none, some "b", [("title", "old")]⟩)) = true by
      decide +kernel)
  obtain ⟨s₂, h₂, hs₂⟩ := (Option.any_eq_true _ _).mp hs₀
  obtain ⟨s₄, h₄, hs₄⟩ := (Option.any_eq_true _ _).mp hs₂
  obtain ⟨s₅, h₅, hs₅⟩ := (Option.any_eq_true _ _).mp hs₄
  exact ⟨s₀, s₂, s₄, s₅, h₀, h₂, h₄, h₅, of_decide_eq_true hs₅⟩

end RowUpdate

end AideepWebsocket.CrdtService
