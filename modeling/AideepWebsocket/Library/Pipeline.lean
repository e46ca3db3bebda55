import AideepWebsocket.Library.Run

/-!
# Reading back through a pipeline

Many clients send commands to a store, which executes and answers them in the order in
which they were issued.  A client that has changed the store goes on to read it, and
shows what it has read.  Between its execution and its answer a read may be outdated,
and so is what is shown of it.

A client **owes** a read from the moment at which its change is executed until its read
is.  If nobody owes one, the last read that was executed is that of the store as it is;
answers arrive in order, so the last that is shown is never an older one
(`Pipeline.shown_of_settled`).

* `Protocol` — what the commands do, and how a client goes on after an answer;
* `Pipeline` — the commands under way, the store and what has been shown;
* `UpToDate` — the invariant.
-/

namespace AideepWebsocket.Library

universe u v

/-- What commands do to a store, and which one a client issues after an answer. -/
structure Protocol (C : Type u) (V : Type v) where
  effect : C → V → V
  next : C → Option C
  /-- The command changes the store. -/
  writes : C → Bool
  /-- The command stands between a change and the read that its client goes on to. -/
  owes : C → Bool
  /-- The answer of the command is shown. -/
  reads : C → Bool
  effect_eq : ∀ {c value}, writes c = false → effect c value = value
  exists_next : ∀ {c}, writes c = true ∨ owes c = true →
    ∃ c' ∈ next c, owes c' = true ∨ reads c' = true

/-- The commands that have been executed, each with the store as it was, in the order in
which they will be answered; those that have not; the store; and what has been shown. -/
structure Pipeline (C : Type u) (V : Type v) where
  executed : List (C × V)
  waiting : List C
  store : V
  shown : List V

namespace Pipeline

variable {C : Type u} {V : Type v}

/-- Nothing is under way. -/
def start (value : V) : Pipeline C V := ⟨[], [], value, []⟩

inductive Event (C : Type u)
  | issue (c : C)
  | execute
  | answer

/-- A client comes up with a command that owes no read; the store executes the oldest
command; or the oldest answer arrives, and its client goes on. -/
def step (P : Protocol C V) (p : Pipeline C V) : Event C → Option (Pipeline C V)
  | .issue c =>
      if P.owes c = false ∧ P.reads c = false then some { p with waiting := p.waiting ++ [c] }
      else none
  | .execute =>
      match p.waiting with
      | [] => none
      | c :: waiting =>
          some { p with
            executed := p.executed ++ [(c, p.store)]
            waiting := waiting
            store := P.effect c p.store }
  | .answer =>
      match p.executed with
      | [] => none
      | (c, value) :: executed =>
          some { p with
            executed := executed
            waiting := p.waiting ++ (P.next c).toList
            shown := p.shown ++ if P.reads c = true then [value] else [] }

variable {P : Protocol C V} {p p' : Pipeline C V} {value : V}

/-- Somebody owes a read: the change has been executed, and the read has not. -/
def Owed (P : Protocol C V) (p : Pipeline C V) : Prop :=
  (∃ q ∈ p.executed, P.writes q.1 = true ∨ P.owes q.1 = true) ∨
    ∃ c ∈ p.waiting, P.owes c = true ∨ P.reads c = true

/-- The reads that have been executed, shown or not. -/
def readings (P : Protocol C V) (p : Pipeline C V) : List V :=
  p.shown ++ (p.executed.filter fun q => P.reads q.1).map Prod.snd

/-- **The invariant.**  If nobody owes a read, the last one was that of the store. -/
def UpToDate (P : Protocol C V) (value : V) (p : Pipeline C V) : Prop :=
  p.Owed P ∨ (p.readings P).getLast?.getD value = p.store

theorem upToDate_start : UpToDate P value (start value) := Or.inr rfl

/-- A command that owes no read changes nothing yet. -/
private theorem UpToDate.issue (hU : UpToDate P value p) {c : C} :
    UpToDate P value { p with waiting := p.waiting ++ [c] } := by
  refine hU.imp_left (Or.imp_right ?_)
  rintro ⟨c', hmem, howes⟩
  exact ⟨c', List.mem_append_left _ hmem, howes⟩

/-- A change makes its client owe a read, and a read is that of the store. -/
private theorem UpToDate.execute (hU : UpToDate P value p) {c : C} {waiting : List C}
    (hwaiting : p.waiting = c :: waiting) :
    UpToDate P value { p with
      executed := p.executed ++ [(c, p.store)]
      waiting := waiting
      store := P.effect c p.store } := by
  have hlast : (c, p.store) ∈ p.executed ++ [(c, p.store)] :=
    List.mem_append_right _ (List.mem_singleton_self _)
  by_cases hwrites : P.writes c = true
  · exact Or.inl (Or.inl ⟨_, hlast, Or.inl hwrites⟩)
  by_cases howes : P.owes c = true
  · exact Or.inl (Or.inl ⟨_, hlast, Or.inr howes⟩)
  have hstore : P.effect c p.store = p.store := P.effect_eq (Bool.eq_false_iff.mpr hwrites)
  by_cases hreads : P.reads c = true
  · refine Or.inr ?_
    simp [readings, hreads, hstore]
  · rcases hU with howed | hvalue
    · refine Or.inl (howed.imp ?_ ?_)
      · rintro ⟨q, hmem, h⟩
        exact ⟨q, List.mem_append_left _ hmem, h⟩
      · rintro ⟨c', hmem, h⟩
        rw [hwaiting] at hmem
        rcases List.mem_cons.mp hmem with rfl | hmem
        · exact (h.elim howes hreads).elim
        · exact ⟨c', hmem, h⟩
    · refine Or.inr ?_
      simpa [readings, hreads, hstore] using hvalue

/-- The client of a change goes on to its read, and a read is shown. -/
private theorem UpToDate.answer (hU : UpToDate P value p) {c : C} {read : V}
    {executed : List (C × V)} (hexecuted : p.executed = (c, read) :: executed) :
    UpToDate P value { p with
      executed := executed
      waiting := p.waiting ++ (P.next c).toList
      shown := p.shown ++ if P.reads c = true then [read] else [] } := by
  rcases hU with (⟨q, hmem, howes⟩ | ⟨c', hmem, howes⟩) | hvalue
  · refine Or.inl ?_
    rw [hexecuted] at hmem
    rcases List.mem_cons.mp hmem with rfl | hmem
    · obtain ⟨c', hnext, howes'⟩ := P.exists_next howes
      exact Or.inr ⟨c', List.mem_append_right _ (Option.mem_toList.mpr hnext), howes'⟩
    · exact Or.inl ⟨q, hmem, howes⟩
  · exact Or.inl (Or.inr ⟨c', List.mem_append_left _ hmem, howes⟩)
  · refine Or.inr ?_
    rw [readings, hexecuted] at hvalue
    by_cases hreads : P.reads c = true <;> simpa [readings, hreads] using hvalue

theorem UpToDate.step (hU : UpToDate P value p) {e : Event C} (h : p.step P e = some p') :
    UpToDate P value p' := by
  cases e with
  | issue c =>
      rw [Pipeline.step] at h
      split at h <;> cases h
      exact hU.issue
  | execute =>
      rw [Pipeline.step] at h
      split at h
      · cases h
      · next c waiting hwaiting =>
          cases h
          exact hU.execute hwaiting
  | answer =>
      rw [Pipeline.step] at h
      split at h
      · cases h
      · next c read executed hexecuted =>
          cases h
          exact hU.answer hexecuted

/-- No change and no read is under way. -/
def Settled (P : Protocol C V) (p : Pipeline C V) : Prop :=
  ∀ c ∈ p.executed.map Prod.fst ++ p.waiting,
    P.writes c = false ∧ P.owes c = false ∧ P.reads c = false

/-- **What is shown last** is the store, once nothing is under way. -/
theorem shown_of_settled (hreach : Reachable (step P) (start value) p) (hsettled : p.Settled P) :
    p.shown.getLast?.getD value = p.store := by
  have hU : UpToDate P value p := hreach.invariant upToDate_start fun _ _ _ h hU => hU.step h
  have hexecuted : ∀ q ∈ p.executed, P.writes q.1 = false ∧ P.owes q.1 = false ∧
      P.reads q.1 = false := fun q hq =>
    hsettled q.1 (List.mem_append_left _ (List.mem_map_of_mem hq))
  rcases hU with (⟨q, hmem, howes⟩ | ⟨c, hmem, howes⟩) | hvalue
  · obtain ⟨hwrites, hnot, -⟩ := hexecuted q hmem
    rw [hwrites, hnot] at howes
    simp at howes
  · obtain ⟨-, hnot, hreads⟩ := hsettled c (List.mem_append_right _ hmem)
    rw [hnot, hreads] at howes
    simp at howes
  · have hnone : p.executed.filter (fun q => P.reads q.1) = [] :=
      List.filter_eq_nil_iff.mpr fun q hq => by rw [(hexecuted q hq).2.2]; decide
    rwa [readings, hnone, List.map_nil, List.append_nil] at hvalue

end Pipeline

end AideepWebsocket.Library
