import AideepWebsocket.DocManager.FlushCalls
import AideepWebsocket.DocManager.Keys

/-!
# The safety flush

Every tick of the interval calls `flushAll`, and so does the shutdown.  The workers of one
call share a cursor and await one `flushDoc` each, so at most `FLUSH_CONCURRENCY` of its
calls are unsettled at a time.  But neither the interval nor the shutdown awaits the call
before, and nothing is shared between two calls of `flushAll`.

* `CallInv` — how one `flushAll` stands: its calls of `flushDoc` are for the nodes before
  its cursor, and each worker that has not ended awaits one of them.  It is stated with the
  number of workers that are at the head of their loop, since one `nextFlush` follows
  another within a step.
* `FlushAllInv` — the same of all of them; `step` keeps it.
* `along_flushing_le_iff` — the limit holds of all calls together exactly in the runs in
  which every `flushAll` starts with room.
* `flushAll_covers_each_once` — one `flushAll` flushes what was managed when it started,
  each node once, and resolves when all of these flushes have settled, with or without an
  error.
-/

namespace AideepWebsocket.DocManager

open Library

variable {lex : Lexical} {s s' : State} {e : Event} {n : NodeId} {call : ℕ}

namespace State

/-! ### Counting the calls -/

theorem mem_flushingOf {t : TaskId} :
    t ∈ s.flushingOf call ↔ ∃ n, s.flushCall t = some ⟨call, n, false⟩ := by
  simp only [flushingOf, Finset.mem_filter, Finset.mem_range]
  constructor
  · rintro ⟨-, ⟨call', n, settled⟩, hx, rfl, rfl⟩
    exact ⟨n, hx⟩
  · rintro ⟨n, hx⟩
    refine ⟨?_, _, hx, rfl, rfl⟩
    by_contra hlt
    rw [flushCall_of_next_le (not_lt.mp hlt)] at hx
    cases hx

theorem mem_flushing {t : TaskId} :
    t ∈ s.flushing ↔ ∃ call n, s.flushCall t = some ⟨call, n, false⟩ := by
  simp only [flushing, Finset.mem_filter, Finset.mem_range]
  constructor
  · rintro ⟨-, ⟨call, n, settled⟩, hx, rfl⟩
    exact ⟨call, n, hx⟩
  · rintro ⟨call, n, hx⟩
    refine ⟨?_, _, hx, rfl⟩
    by_contra hlt
    rw [flushCall_of_next_le (not_lt.mp hlt)] at hx
    cases hx

private theorem filterMap_range {α : Type*} {g : ℕ → Option α} {m k : ℕ} (h : m ≤ k)
    (hg : ∀ t, m ≤ t → g t = none) : (List.range k).filterMap g = (List.range m).filterMap g := by
  induction k, h using Nat.le_induction with
  | base => rfl
  | succ k hk ih => rw [List.range_succ, List.filterMap_append, ih]; simp [hg k hk]

/-- The nodes that a `flushAll` has called `flushDoc` for depend on the calls only. -/
theorem flushedBy_congr (hnext : s.queue.next ≤ s'.queue.next)
    (h : ∀ t, ((s'.flushCall t).bind fun x => if x.call = call then some x.nodeId else none) =
      (s.flushCall t).bind fun x => if x.call = call then some x.nodeId else none) :
    s'.flushedBy call = s.flushedBy call := by
  unfold flushedBy
  rw [List.filterMap_congr fun t _ => h t]
  refine filterMap_range hnext fun t ht => ?_
  rw [flushCall_of_next_le ht]
  rfl

theorem SameFlushes.flushedBy (h : SameFlushes s s') : s'.flushedBy call = s.flushedBy call :=
  flushedBy_congr h.next fun t => by rw [h.flushCall]

theorem SameFlushes.flushingOf (h : SameFlushes s s') : s'.flushingOf call = s.flushingOf call := by
  ext t
  rw [mem_flushingOf, mem_flushingOf, h.flushCall]

/-- How a `flushAll` stands: it has called `flushDoc` for the nodes before its cursor,
and all but `idle` of its workers await such a call.  A worker has ended only if there is
no node left. -/
structure CallInv (s : State) (call idle : ℕ) (c : FlushAllCall) : Prop where
  entry : s.flushAlls call = some c
  flushed : s.flushedBy call = c.nodeIds.take c.cursor
  cursor_le : c.cursor ≤ c.nodeIds.length
  flushing : (s.flushingOf call).card + idle = c.workers
  workers : c.workers = min FLUSH_CONCURRENCY c.nodeIds.length ∨
    c.workers < min FLUSH_CONCURRENCY c.nodeIds.length ∧ c.cursor = c.nodeIds.length

/-- The other calls of `flushAll` are left alone. -/
structure Apart (s s' : State) (call : ℕ) : Prop where
  nextFlushAll : s'.nextFlushAll = s.nextFlushAll
  flushAlls : ∀ i, i ≠ call → s'.flushAlls i = s.flushAlls i
  flushedBy : ∀ i, i ≠ call → s'.flushedBy i = s.flushedBy i
  flushingOf : ∀ i, i ≠ call → s'.flushingOf i = s.flushingOf i

theorem Apart.trans {s₁ : State} (h : Apart s s₁ call) (h' : Apart s₁ s' call) :
    Apart s s' call where
  nextFlushAll := h'.nextFlushAll.trans h.nextFlushAll
  flushAlls i hi := (h'.flushAlls i hi).trans (h.flushAlls i hi)
  flushedBy i hi := (h'.flushedBy i hi).trans (h.flushedBy i hi)
  flushingOf i hi := (h'.flushingOf i hi).trans (h.flushingOf i hi)

theorem CallInv.same {idle : ℕ} {c : FlushAllCall} (h : CallInv s call idle c)
    (hsame : SameFlushes s s') : CallInv s' call idle c where
  entry := by rw [hsame.flushAlls, h.entry]
  flushed := by rw [hsame.flushedBy, h.flushed]
  cursor_le := h.cursor_le
  flushing := by rw [hsame.flushingOf, h.flushing]
  workers := h.workers

/-- A worker takes the next node. -/
private theorem nextFlush_take {idle : ℕ} {c : FlushAllCall} (h : CallInv s call (idle + 1) c)
    (hn : c.nodeIds[c.cursor]? = some n) :
    CallInv (s.nextFlush call) call idle { c with cursor := c.cursor + 1 } ∧
      Apart s (s.nextFlush call) call := by
  let s₁ : State := { s with
    flushAlls := Function.update s.flushAlls call (some { c with cursor := c.cursor + 1 }) }
  have heq : s.nextFlush call = s₁.flushDoc n (.flushAll call) := by
    simp only [nextFlush, h.entry, hn, s₁]
  rw [heq]
  have hcall : (s₁.flushDoc n (.flushAll call)).flushCall =
      Function.update s.flushCall s.queue.next (some ⟨call, n, false⟩) :=
    flushCall_of_runExclusive (s := s₁) rfl
  have hnext : (s₁.flushDoc n (.flushAll call)).queue.next = s.queue.next + 1 := rfl
  have hnone : s.flushCall s.queue.next = none := flushCall_of_next_le le_rfl
  obtain ⟨hlt, hget⟩ := List.getElem?_eq_some_iff.mp hn
  constructor
  · refine ⟨Function.update_self .., ?_, hlt, ?_, ?_⟩
    · have hflushed : (s₁.flushDoc n (.flushAll call)).flushedBy call = s.flushedBy call ++ [n] := by
        unfold flushedBy
        rw [hnext, List.range_succ, List.filterMap_append, hcall]
        congr 1
        · refine List.filterMap_congr fun t ht => ?_
          rw [Function.update_of_ne (List.mem_range.mp ht).ne]
        · simp
      rw [hflushed, h.flushed, ← hget]
      exact List.take_append_getElem hlt
    · have hflushing : (s₁.flushDoc n (.flushAll call)).flushingOf call =
          insert s.queue.next (s.flushingOf call) := by
        ext t
        rw [Finset.mem_insert, mem_flushingOf, mem_flushingOf, hcall]
        by_cases ht : t = s.queue.next
        · simp [ht]
        · simp [ht]
      have hnot : s.queue.next ∉ s.flushingOf call := by
        rw [mem_flushingOf, hnone]
        rintro ⟨m, hm⟩
        cases hm
      rw [hflushing, Finset.card_insert_of_notMem hnot, ← h.flushing]
      omega
    · exact h.workers.imp_right fun hw => absurd hw.2 hlt.ne
  · refine ⟨rfl, fun i hi => Function.update_of_ne hi .., fun i hi => ?_, fun i hi => ?_⟩
    · refine flushedBy_congr (hnext ▸ Nat.le_succ _) fun t => ?_
      rw [hcall]
      by_cases ht : t = s.queue.next
      · simp [ht, hnone, hi.symm]
      · rw [Function.update_of_ne ht]
    · ext t
      rw [mem_flushingOf, mem_flushingOf, hcall]
      by_cases ht : t = s.queue.next
      · simp [ht, hnone, hi.symm]
      · rw [Function.update_of_ne ht]

/-- A worker finds no node left, and ends. -/
private theorem nextFlush_end {idle : ℕ} {c : FlushAllCall} (h : CallInv s call (idle + 1) c)
    (hn : c.nodeIds[c.cursor]? = none) :
    CallInv (s.nextFlush call) call idle { c with workers := c.workers - 1 } ∧
      Apart s (s.nextFlush call) call := by
  let s₁ : State := { s with
    flushAlls := Function.update s.flushAlls call (some { c with workers := c.workers - 1 }) }
  have heq : s.nextFlush call = s₁ := by simp only [nextFlush, h.entry, hn, s₁]
  rw [heq]
  have hend : c.cursor = c.nodeIds.length :=
    le_antisymm h.cursor_le (List.getElem?_eq_none_iff.mp hn)
  have hflushing := h.flushing
  have hworkers := h.workers
  refine ⟨⟨Function.update_self .., h.flushed, h.cursor_le, ?_, Or.inr ⟨?_, hend⟩⟩,
    rfl, fun i hi => Function.update_of_ne hi .., fun _ _ => rfl, fun _ _ => rfl⟩
  · show (s.flushingOf call).card + idle = c.workers - 1
    omega
  · show c.workers - 1 < min FLUSH_CONCURRENCY c.nodeIds.length
    omega

/-- The workers take their first nodes. -/
private theorem nextFlush_iterate (k : ℕ) {idle : ℕ} {c : FlushAllCall}
    (h : CallInv s call (k + idle) c) (hk : c.cursor + k ≤ c.nodeIds.length) :
    CallInv ((fun s => s.nextFlush call)^[k] s) call idle { c with cursor := c.cursor + k } ∧
      Apart s ((fun s => s.nextFlush call)^[k] s) call := by
  induction k generalizing s c with
  | zero => exact ⟨by simpa using h, rfl, fun _ _ => rfl, fun _ _ => rfl, fun _ _ => rfl⟩
  | succ k ih =>
      have hlt : c.cursor < c.nodeIds.length := by omega
      have hidle : CallInv s call (k + idle + 1) c := by
        rw [show k + idle + 1 = k + 1 + idle by omega]
        exact h
      obtain ⟨hfirst, hapart⟩ := nextFlush_take hidle (List.getElem?_eq_getElem hlt)
      obtain ⟨hrest, hapart'⟩ := ih (c := { c with cursor := c.cursor + 1 }) hfirst
        (by show c.cursor + 1 + k ≤ c.nodeIds.length; omega)
      rw [Function.iterate_succ_apply]
      refine ⟨?_, hapart.trans hapart'⟩
      rw [show c.cursor + (k + 1) = c.cursor + 1 + k by omega]
      exact hrest

/-- When the process is gone, no call of it is left to settle. -/
theorem flushCall_restart (s : State) (t : TaskId) :
    s.restart.flushCall t = (s.flushCall t).map fun x => { x with settled := true } := by
  have htask : s.restart.queue.task t = (s.queue.task t).map fun entry =>
      { entry with payload := goneTask entry.payload } := rfl
  rw [flushCall, flushCall, htask]
  cases s.queue.task t with
  | none => rfl
  | some entry =>
      obtain ⟨result, hresult⟩ := TaskStep.phase_goneTask entry.payload
      simp only [Option.map_some, Option.bind_some, kind_goneTask, hresult]
      cases entry.payload.kind.flushAll <;> rfl

theorem flushedBy_restart (s : State) (call : ℕ) : s.restart.flushedBy call = s.flushedBy call := by
  refine flushedBy_congr le_rfl fun t => ?_
  rw [flushCall_restart]
  cases s.flushCall t <;> rfl

/-- **The invariant** of the calls of `flushAll`. -/
structure FlushAllInv (s : State) : Prop where
  calls : ∀ {call c}, s.flushAlls call = some c → CallInv s call 0 c
  /-- The calls of a process that is gone have settled. -/
  gone : ∀ {call}, s.flushAlls call = none → s.flushingOf call = ∅
  fresh : ∀ {call}, s.nextFlushAll ≤ call → s.flushAlls call = none ∧ s.flushedBy call = []

theorem flushAllInv_init (nodes : NodeId → Option NodeRow) : FlushAllInv (State.init nodes) where
  calls h := by cases h
  gone _ := rfl
  fresh _ := ⟨rfl, rfl⟩

namespace FlushAllInv

theorem same (hI : FlushAllInv s) (h : SameFlushes s s') : FlushAllInv s' where
  calls hc := (hI.calls (h.flushAlls ▸ hc)).same h
  gone hnone := by rw [h.flushingOf, hI.gone (h.flushAlls ▸ hnone)]
  fresh hle := by
    rw [h.flushAlls, h.flushedBy]
    exact hI.fresh (h.nextFlushAll ▸ hle)

/-- One call has gone on. -/
theorem apart (hI : FlushAllInv s) {c : FlushAllCall} (hc : CallInv s' call 0 c)
    (h : Apart s s' call) (hlt : call < s.nextFlushAll) : FlushAllInv s' where
  calls {i c'} hi := by
    by_cases hcall : i = call
    · subst hcall
      obtain rfl := Option.some.inj (hc.entry.symm.trans hi)
      exact hc
    · have hold := hI.calls ((h.flushAlls i hcall).symm.trans hi)
      exact ⟨hi, by rw [h.flushedBy i hcall, hold.flushed], hold.cursor_le,
        by rw [h.flushingOf i hcall, hold.flushing], hold.workers⟩
  gone {i} hnone := by
    by_cases hcall : i = call
    · rw [hcall, hc.entry] at hnone
      cases hnone
    · rw [h.flushingOf i hcall]
      exact hI.gone ((h.flushAlls i hcall).symm.trans hnone)
  fresh {i} hle := by
    rw [h.nextFlushAll] at hle
    have hne : i ≠ call := (hlt.trans_le hle).ne'
    rw [h.flushAlls i hne, h.flushedBy i hne]
    exact hI.fresh hle

/-- A `flushAll` starts. -/
theorem flushAll (hI : FlushAllInv s) :
    FlushAllInv s.flushAll ∧ s.flushAll.nextFlushAll = s.nextFlushAll + 1 ∧
      (∀ i, i ≠ s.nextFlushAll → s.flushAll.flushAlls i = s.flushAlls i ∧
        s.flushAll.flushedBy i = s.flushedBy i) ∧
      s.flushAll.flushAlls s.nextFlushAll =
        some ⟨s.mem.keys, min FLUSH_CONCURRENCY s.mem.keys.length,
          min FLUSH_CONCURRENCY s.mem.keys.length⟩ := by
  let c : FlushAllCall := ⟨s.mem.keys, 0, min FLUSH_CONCURRENCY s.mem.keys.length⟩
  let s₁ : State := { s with
    flushAlls := Function.update s.flushAlls s.nextFlushAll (some c)
    nextFlushAll := s.nextFlushAll + 1 }
  obtain ⟨hnone, hflushed⟩ := hI.fresh le_rfl
  have hstart : CallInv s₁ s.nextFlushAll (min FLUSH_CONCURRENCY s.mem.keys.length + 0) c := by
    refine ⟨Function.update_self .., hflushed, Nat.zero_le _, ?_, Or.inl rfl⟩
    show (s.flushingOf s.nextFlushAll).card + _ = _
    rw [hI.gone hnone, Finset.card_empty, Nat.zero_add, Nat.add_zero]
  obtain ⟨hc, hapart⟩ : CallInv s.flushAll s.nextFlushAll 0
      { c with cursor := 0 + min FLUSH_CONCURRENCY s.mem.keys.length } ∧
        Apart s₁ s.flushAll s.nextFlushAll :=
    nextFlush_iterate _ hstart (by show 0 + min _ s.mem.keys.length ≤ s.mem.keys.length; omega)
  have hI₁ : FlushAllInv s.flushAll := by
    have hcalls : ∀ i, i ≠ s.nextFlushAll → s.flushAll.flushAlls i = s.flushAlls i := fun i hi =>
      (hapart.flushAlls i hi).trans (Function.update_of_ne hi ..)
    refine ⟨fun {i c'} hi => ?_, fun {i} hi => ?_, fun {i} hle => ?_⟩
    · by_cases hcall : i = s.nextFlushAll
      · subst hcall
        obtain rfl := Option.some.inj (hc.entry.symm.trans hi)
        exact hc
      · have hold := hI.calls ((hcalls i hcall).symm.trans hi)
        exact ⟨hi, (hapart.flushedBy i hcall).trans hold.flushed, hold.cursor_le,
          (congrArg (·.card + 0) (hapart.flushingOf i hcall)).trans hold.flushing, hold.workers⟩
    · by_cases hcall : i = s.nextFlushAll
      · rw [hcall, hc.entry] at hi
        cases hi
      · exact (hapart.flushingOf i hcall).trans (hI.gone ((hcalls i hcall).symm.trans hi))
    · rw [hapart.nextFlushAll] at hle
      have hle : s.nextFlushAll + 1 ≤ i := hle
      have hne : i ≠ s.nextFlushAll := (Nat.lt_of_succ_le hle).ne'
      obtain ⟨hnone, hflushed⟩ := hI.fresh (Nat.le_of_succ_le hle)
      exact ⟨(hcalls i hne).trans hnone, (hapart.flushedBy i hne).trans hflushed⟩
  refine ⟨hI₁, hapart.nextFlushAll, fun i hi =>
    ⟨(hapart.flushAlls i hi).trans (Function.update_of_ne hi ..), hapart.flushedBy i hi⟩, ?_⟩
  have hentry := hc.entry
  rw [Nat.zero_add] at hentry
  exact hentry

/-- A process is gone, and its calls with it. -/
theorem restart (hI : FlushAllInv s) : FlushAllInv s.restart := by
  refine ⟨fun h => (by cases h), fun {call} _ => ?_, fun {call} hle => ⟨rfl, ?_⟩⟩
  · refine Finset.eq_empty_of_forall_notMem fun t ht => ?_
    obtain ⟨n, hn⟩ := mem_flushingOf.mp ht
    rw [flushCall_restart] at hn
    obtain ⟨x, -, hx⟩ := Option.map_eq_some_iff.mp hn
    cases hx
  · rw [flushedBy_restart]
    exact (hI.fresh hle).2

/-- A call has settled, and its worker goes on. -/
theorem turned {t : TaskId} {s₁ : State} (hI : FlushAllInv s)
    (hcall : s.flushCall t = some ⟨call, n, false⟩) (hcalls : s₁.flushAlls = s.flushAlls)
    (hnext : s₁.nextFlushAll = s.nextFlushAll)
    (hflushCall : s₁.flushCall = Function.update s.flushCall t (some ⟨call, n, true⟩))
    (hqueue : s₁.queue.next = s.queue.next) :
    call < s.nextFlushAll ∧ ∃ c c', s.flushAlls call = some c ∧ c'.nodeIds = c.nodeIds ∧
      CallInv (s₁.nextFlush call) call 0 c' ∧ Apart s (s₁.nextFlush call) call := by
  have hmem : t ∈ s.flushingOf call := mem_flushingOf.mpr ⟨n, hcall⟩
  obtain ⟨c, hc⟩ : ∃ c, s.flushAlls call = some c := by
    refine Option.ne_none_iff_exists'.mp fun hnone => ?_
    rw [hI.gone hnone] at hmem
    exact Finset.notMem_empty t hmem
  have hlt : call < s.nextFlushAll := by
    by_contra hle
    rw [(hI.fresh (not_lt.mp hle)).1] at hc
    cases hc
  -- the worker is at the head of its loop
  have hflushed : ∀ i, s₁.flushedBy i = s.flushedBy i := by
    intro i
    refine flushedBy_congr hqueue.ge fun j => ?_
    rw [hflushCall]
    by_cases hj : j = t
    · simp [hj, hcall]
    · rw [Function.update_of_ne hj]
  have hapart : Apart s s₁ call := by
    refine ⟨hnext, fun i _ => by rw [hcalls], fun i _ => hflushed i, fun i hi => ?_⟩
    ext j
    rw [mem_flushingOf, mem_flushingOf, hflushCall]
    by_cases hj : j = t
    · simp [hj, hcall, hi.symm]
    · rw [Function.update_of_ne hj]
  have hold := hI.calls hc
  have hidle : CallInv s₁ call 1 c := by
    refine ⟨by rw [hcalls, hc], by rw [hflushed, hold.flushed], hold.cursor_le, ?_, hold.workers⟩
    have herase : s₁.flushingOf call = (s.flushingOf call).erase t := by
      ext j
      rw [Finset.mem_erase, mem_flushingOf, mem_flushingOf, hflushCall]
      by_cases hj : j = t
      · simp [hj]
      · simp [hj]
    rw [herase, Finset.card_erase_add_one hmem]
    exact hold.flushing
  cases hn : c.nodeIds[c.cursor]? with
  | some m =>
      obtain ⟨hc', hapart'⟩ := nextFlush_take hidle hn
      exact ⟨hlt, c, { c with cursor := c.cursor + 1 }, hc, rfl, hc', hapart.trans hapart'⟩
  | none =>
      obtain ⟨hc', hapart'⟩ := nextFlush_end hidle hn
      exact ⟨hlt, c, { c with workers := c.workers - 1 }, hc, rfl, hc', hapart.trans hapart'⟩

/-- **One step.** -/
theorem step (hI : FlushAllInv s) (h : FlushAllStep s e s') : FlushAllInv s' := by
  cases h with
  | same h => exact hI.same h
  | started _ h => exact hI.flushAll.1.same h
  | restart _ => exact hI.restart
  | turned t call n s₁ hcall hcalls hnext hflushCall hqueue =>
      obtain ⟨hlt, c, c', -, -, hc', hapart⟩ := hI.turned hcall hcalls hnext hflushCall hqueue
      exact hI.apart hc' hapart hlt

/-- Every call that has not settled is awaited by a worker. -/
theorem card_flushing (hI : FlushAllInv s) : s.flushing.card = s.flushWorkers := by
  have hunion : s.flushing = (Finset.range s.nextFlushAll).biUnion s.flushingOf := by
    ext t
    simp only [mem_flushing, Finset.mem_biUnion, Finset.mem_range]
    constructor
    · rintro ⟨call, n, hcall⟩
      have hmem : t ∈ s.flushingOf call := mem_flushingOf.mpr ⟨n, hcall⟩
      refine ⟨call, ?_, hmem⟩
      by_contra hle
      rw [hI.gone (hI.fresh (not_lt.mp hle)).1] at hmem
      exact Finset.notMem_empty t hmem
    · rintro ⟨call, -, hmem⟩
      exact ⟨call, mem_flushingOf.mp hmem⟩
  rw [hunion, Finset.card_biUnion, flushWorkers]
  · refine Finset.sum_congr rfl fun call _ => ?_
    cases hc : s.flushAlls call with
    | none => rw [hI.gone hc]; rfl
    | some c => exact (hI.calls hc).flushing
  · intro i _ j _ hij
    refine Finset.disjoint_left.mpr fun t hi hj => hij ?_
    obtain ⟨n, hn⟩ := mem_flushingOf.mp hi
    obtain ⟨m, hm⟩ := mem_flushingOf.mp hj
    rw [hn] at hm
    cases hm
    rfl

/-- A `flushAll` adds its workers. -/
theorem flushWorkers_flushAll (hI : FlushAllInv s) :
    s.flushAll.flushWorkers = s.flushWorkers + min FLUSH_CONCURRENCY s.mem.keys.length := by
  obtain ⟨-, hnext, hcalls, hcall⟩ := hI.flushAll
  rw [flushWorkers, hnext, Finset.sum_range_succ, hcall, flushWorkers]
  congr 1
  refine Finset.sum_congr rfl fun i hi => ?_
  rw [(hcalls i (Finset.mem_range.mp hi).ne).1]

end FlushAllInv

/-- A worker that goes on adds at most one call. -/
private theorem card_flushing_nextFlush (s : State) (call : ℕ) :
    (s.nextFlush call).flushing.card ≤ s.flushing.card + 1 := by
  have hflush : ∀ (s₁ : State) (n : NodeId), s₁.flushCall = s.flushCall →
      s₁.queue.next = s.queue.next →
      (s₁.flushDoc n (.flushAll call)).flushing ⊆ insert s.queue.next s.flushing := by
    intro s₁ n hcall hnext t ht
    obtain ⟨call', m, hm⟩ := mem_flushing.mp ht
    have hafter : (s₁.flushDoc n (.flushAll call)).flushCall =
        Function.update s₁.flushCall s₁.queue.next (some ⟨call, n, false⟩) :=
      flushCall_of_runExclusive rfl
    rw [hafter, hcall, hnext] at hm
    by_cases hnew : t = s.queue.next
    · exact Finset.mem_insert.mpr (Or.inl hnew)
    · rw [Function.update_of_ne hnew] at hm
      exact Finset.mem_insert_of_mem (mem_flushing.mpr ⟨call', m, hm⟩)
  unfold nextFlush
  split
  · exact Nat.le_succ _
  · split
    · exact (Finset.card_le_card (hflush _ _ rfl rfl)).trans (Finset.card_insert_le _ _)
    · exact Nat.le_succ _

/-- Only a `flushAll` that starts adds to the calls that have not settled. -/
theorem card_flushing_le_of_step (hI : FlushAllInv s) (h : FlushAllStep s e s')
    (he : ¬ e.StartsFlushAll) : s'.flushing.card ≤ s.flushing.card := by
  cases h with
  | same h =>
      refine le_of_eq (congrArg Finset.card ?_)
      ext t
      rw [mem_flushing, mem_flushing, h.flushCall]
  | started hstarts _ => exact absurd hstarts he
  | restart _ =>
      rw [hI.restart.card_flushing, flushWorkers]
      simp [restart]
  | turned t call n s₁ hcall _ _ hflushCall _ =>
      refine (card_flushing_nextFlush s₁ call).trans ?_
      have herase : s₁.flushing = s.flushing.erase t := by
        ext j
        rw [Finset.mem_erase, mem_flushing, mem_flushing, hflushCall]
        by_cases hj : j = t
        · simp [hj]
        · simp [hj]
      rw [herase, Finset.card_erase_add_one (mem_flushing.mpr ⟨call, n, hcall⟩)]

end State

/-! ### The limit -/

/-- The workers of the `flushAll` calls that are still running leave room for those of one
more: one per managed document, up to the limit. -/
def State.HasRoom (s : State) : Prop :=
  s.flushWorkers + min FLUSH_CONCURRENCY s.mem.keys.length ≤ FLUSH_CONCURRENCY

instance (s : State) : Decidable s.HasRoom := by
  unfold State.HasRoom
  infer_instance

/-- What is unsettled once a `flushAll` has started. -/
private theorem card_flushing_of_startsFlushAll (h : step lex s e = some s')
    (hI : s.FlushAllInv) (he : e.StartsFlushAll) :
    s'.flushing.card = s.flushWorkers + min FLUSH_CONCURRENCY s.mem.keys.length := by
  have hsame := State.sameFlushes_of_startsFlushAll h he
  rw [(hI.flushAll.1.same hsame).card_flushing, ← hI.flushWorkers_flushAll, State.flushWorkers,
    State.flushWorkers, hsame.nextFlushAll, hsame.flushAlls]

/-- **The limit holds exactly if every `flushAll` starts with room.**  In every run, at
most `FLUSH_CONCURRENCY` calls that `flushAll` has made are unsettled after every step if
and only if whenever a `flushAll` starts, the earlier ones leave room for it. -/
theorem along_flushing_le_iff (lex : Lexical) (nodes : NodeId → Option NodeRow)
    (es : List Event) :
    Along (step lex) (fun _ _ s' => s'.flushing.card ≤ FLUSH_CONCURRENCY) (State.init nodes) es ↔
      Along (step lex) (fun s e _ => e.StartsFlushAll → s.HasRoom) (State.init nodes) es := by
  constructor
  · refine along_of_invariant (I := State.FlushAllInv) ?_ (State.flushAllInv_init nodes)
    intro s e s' h hI hle
    refine ⟨hI.step (State.flushAllStep_of_step h), fun he => ?_⟩
    rw [card_flushing_of_startsFlushAll h hI he] at hle
    exact hle
  · refine along_of_invariant
      (I := fun s => s.FlushAllInv ∧ s.flushing.card ≤ FLUSH_CONCURRENCY) ?_
      ⟨State.flushAllInv_init nodes, Nat.zero_le _⟩
    rintro s e s' h ⟨hI, hle⟩ hroom
    have hstep := State.flushAllStep_of_step h
    have hle' : s'.flushing.card ≤ FLUSH_CONCURRENCY := by
      by_cases he : e.StartsFlushAll
      · rw [card_flushing_of_startsFlushAll h hI he]
        exact hroom he
      · exact (State.card_flushing_le_of_step hI hstep he).trans hle
    exact ⟨⟨hI.step hstep, hle'⟩, hle'⟩

/-- Three documents are opened. -/
def openThree : List Event :=
  [.getOrCreateDoc 1 7, .redisReply .ok, .continueLoad 0, .dbReply 0 true 0, .continueLoad 0,
    .resumeGet 0, .getOrCreateDoc 2 7, .redisReply .ok, .continueLoad 1, .dbReply 1 true 0,
    .continueLoad 1, .resumeGet 1, .getOrCreateDoc 3 7, .redisReply .ok, .continueLoad 2,
    .dbReply 2 true 0, .continueLoad 2, .resumeGet 2]

/-- The process is shut down while the flushes of the last tick wait for their stores:
six calls are unsettled. -/
theorem openThree_exceeds :
    ¬ Along (step .plain) (fun _ _ s' => s'.flushing.card ≤ FLUSH_CONCURRENCY)
      (State.init oneNode)
      (openThree ++ [.flushInterval, .startTask 0, .startTask 1, .startTask 2,
        .onModuleDestroy]) := by
  decide +kernel

/-! ### What one flushAll covers -/

/-- What a later state knows of a `flushAll`: its record, or that the process is gone. -/
private structure Remembers (s : State) (call : ℕ) (nodeIds : List NodeId) : Prop where
  inv : s.FlushAllInv
  lt : call < s.nextFlushAll
  entry : (∃ c, s.flushAlls call = some c ∧ c.nodeIds = nodeIds) ∨
    s.flushAlls call = none ∧ s.flushedBy call <+: nodeIds

/-- The record stays until the process is gone. -/
private theorem Remembers.step {nodeIds : List NodeId} (hR : Remembers s call nodeIds)
    (h : State.FlushAllStep s e s') :
    Remembers s' call nodeIds ∧
      (e ≠ .restart → s.flushAlls call ≠ none → s'.flushAlls call ≠ none) := by
  have hI' := hR.inv.step h
  -- the record is as it was
  have hkeep : s.nextFlushAll ≤ s'.nextFlushAll → s'.flushAlls call = s.flushAlls call →
      s'.flushedBy call = s.flushedBy call →
      Remembers s' call nodeIds ∧
        (e ≠ .restart → s.flushAlls call ≠ none → s'.flushAlls call ≠ none) := by
    intro hnext hcalls hflushed
    refine ⟨⟨hI', hR.lt.trans_le hnext, ?_⟩, fun _ hentry => by rwa [hcalls]⟩
    rw [hcalls, hflushed]
    exact hR.entry
  cases h with
  | same h => exact hkeep h.nextFlushAll.ge (by rw [h.flushAlls]) h.flushedBy
  | started _ h =>
      obtain ⟨-, hnext, hcalls, -⟩ := hR.inv.flushAll
      obtain ⟨hentry, hflushed⟩ := hcalls call hR.lt.ne
      refine hkeep ?_ (by rw [h.flushAlls, hentry]) (h.flushedBy.trans hflushed)
      rw [h.nextFlushAll, hnext]
      exact Nat.le_succ _
  | turned t call' n s₁ hcall hcalls hnext hflushCall hqueue =>
      obtain ⟨-, c, c', hc, hnodes, hc', hapart⟩ :=
        hR.inv.turned hcall hcalls hnext hflushCall hqueue
      by_cases hsame : call = call'
      · subst hsame
        obtain ⟨c₀, hc₀, rfl⟩ | ⟨hnone, -⟩ := hR.entry
        · obtain rfl := Option.some.inj (hc.symm.trans hc₀)
          refine ⟨⟨hI', hapart.nextFlushAll ▸ hR.lt, Or.inl ⟨c', hc'.entry, hnodes⟩⟩, ?_⟩
          intro _ _
          rw [hc'.entry]
          exact Option.some_ne_none c'
        · rw [hnone] at hc
          cases hc
      · exact hkeep hapart.nextFlushAll.ge (hapart.flushAlls call hsame)
          (hapart.flushedBy call hsame)
  | restart he =>
      refine ⟨⟨hI', hR.lt, Or.inr ⟨rfl, ?_⟩⟩, fun hne => absurd he hne⟩
      rw [State.flushedBy_restart]
      obtain ⟨c, hc, rfl⟩ | ⟨-, hprefix⟩ := hR.entry
      · rw [(hR.inv.calls hc).flushed]
        exact List.take_prefix _ _
      · exact hprefix

instance (s : State) (call : ℕ) : Decidable (s.FlushAllResolved call) := by
  unfold State.FlushAllResolved
  infer_instance

/-- A call of `flushAll` that has not resolved has an unsettled call of `flushDoc`, and
one that has resolved has none and has gone through all nodes. -/
private theorem resolved_iff {c : FlushAllCall} (hc : s.CallInv call 0 c) :
    (s.FlushAllResolved call ↔ s.flushingOf call = ∅) ∧
      (s.FlushAllResolved call → s.flushedBy call = c.nodeIds) := by
  have hworkers : s.FlushAllResolved call ↔ c.workers = 0 := by
    rw [State.FlushAllResolved, hc.entry]
    simp
  rw [hworkers, ← Finset.card_eq_zero, ← hc.flushing]
  refine ⟨Iff.rfl, fun hzero => ?_⟩
  -- no worker is left, so they have ended, or there was nothing to do
  have hend : c.cursor = c.nodeIds.length := by
    have hcursor := hc.cursor_le
    have hflushing := hc.flushing
    rcases hc.workers with hall | ⟨-, hend⟩
    · have hlimit : FLUSH_CONCURRENCY = 4 := rfl
      omega
    · exact hend
  rw [hc.flushed, hend, List.take_length]

/-- **Every document once.**  Let a `flushAll` start, and let anything happen after.  It
calls `flushDoc` for the nodes that were managed when it started, for none of them twice
and for no other; while the process runs, it has resolved exactly if no call of its own is
unsettled, and then it has called `flushDoc` once for each of them. -/
theorem flushAll_covers_each_once (lex : Lexical) (nodes : NodeId → Option NodeRow)
    (s s₀ s' : State) (e : Event) (es : List Event)
    (hreach : Reachable (step lex) (State.init nodes) s) (he : e.StartsFlushAll)
    (hstart : step lex s e = some s₀) (hes : exec (step lex) s₀ es = some s') :
    (∀ n, (s'.flushedBy s.nextFlushAll).count n ≤ if s.mem.docs n = none then 0 else 1) ∧
      (.restart ∉ es →
        (s'.FlushAllResolved s.nextFlushAll ↔ s'.flushingOf s.nextFlushAll = ∅) ∧
        (s'.FlushAllResolved s.nextFlushAll →
          ∀ n, (s'.flushedBy s.nextFlushAll).count n = if s.mem.docs n = none then 0 else 1)) := by
  obtain ⟨hkeys, hI⟩ : s.mem.KeysInv ∧ s.FlushAllInv :=
    hreach.invariant (I := fun s => s.mem.KeysInv ∧ s.FlushAllInv)
      ⟨Memory.keysInv_of_none (fun _ => rfl) rfl, State.flushAllInv_init nodes⟩
      fun _ _ _ h hI => ⟨keysInv_of_step h hI.1, hI.2.step (State.flushAllStep_of_step h)⟩
  -- the nodes that were managed, each once
  have hcount : ∀ n, s.mem.keys.count n = if s.mem.docs n = none then 0 else 1 := by
    intro n
    rw [hkeys.nodup.count]
    by_cases hn : s.mem.docs n = none
    · rw [if_neg (fun hmem => (hkeys.mem_iff n).mp hmem hn), if_pos hn]
    · rw [if_pos ((hkeys.mem_iff n).mpr hn), if_neg hn]
  -- the record of the call, as it starts
  have hsame := State.sameFlushes_of_startsFlushAll hstart he
  obtain ⟨hI₀, hnext, -, hentry⟩ := hI.flushAll
  have hR₀ : Remembers s₀ s.nextFlushAll s.mem.keys := by
    refine ⟨hI₀.same hsame, ?_, Or.inl ⟨_, by rw [hsame.flushAlls, hentry], rfl⟩⟩
    rw [hsame.nextFlushAll, hnext]
    exact Nat.lt_succ_self _
  have hR : Remembers s' s.nextFlushAll s.mem.keys :=
    exec_invariant (I := fun s' => Remembers s' s.nextFlushAll s.mem.keys) (G := fun _ _ _ => True)
      (fun _ _ _ h hR _ => (hR.step (State.flushAllStep_of_step h)).1) hes hR₀
      (along_of_forall (fun _ _ _ _ => trivial) s₀ es)
  have hprefix : s'.flushedBy s.nextFlushAll <+: s.mem.keys := by
    obtain ⟨c, hc, hnodes⟩ | ⟨-, hprefix⟩ := hR.entry
    · rw [(hR.inv.calls hc).flushed, hnodes]
      exact List.take_prefix _ _
    · exact hprefix
  refine ⟨fun n => hcount n ▸ hprefix.sublist.count_le n, fun hrestart => ?_⟩
  -- the process runs, so the record is there
  have hthere : s'.flushAlls s.nextFlushAll ≠ none := by
    refine (exec_invariant
      (I := fun s' => Remembers s' s.nextFlushAll s.mem.keys ∧ s'.flushAlls s.nextFlushAll ≠ none)
      (G := fun _ e _ => e ≠ .restart) ?_ hes ⟨hR₀, ?_⟩
      (along_of_mem (P := fun _ (e : Event) _ => e ≠ .restart)
        (fun _ _ _ hmem _ heq => hrestart (heq ▸ hmem)) s₀)).2
    · rintro s₁ e₁ s₂ h ⟨hR₁, hthere⟩ hne
      obtain ⟨hR₂, hkeeps⟩ := hR₁.step (State.flushAllStep_of_step h)
      exact ⟨hR₂, hkeeps hne hthere⟩
    · rw [hsame.flushAlls, hentry]
      exact Option.some_ne_none _
  obtain ⟨c, hc, hnodes⟩ | ⟨hnone, -⟩ := hR.entry
  · obtain ⟨hiff, hall⟩ := resolved_iff (hR.inv.calls hc)
    refine ⟨hiff, fun hresolved n => ?_⟩
    rw [hall hresolved, hnodes, hcount]
  · exact absurd hnone hthere

/-- A tick, after which the row of node `1` is found and the two other nodes are gone. -/
def tickSettles : List Event :=
  [.startTask 0, .startTask 1, .startTask 2, .redisReply .ok, .redisReply .ok, .redisReply .ok,
    .updateNodeRow 2 .ok 10, .updateNodeRow 0 .ok 10, .updateNodeRow 1 .ok 10,
    .attachmentsSynced 0 true, .continueFlush 1, .resumeTask 1, .continueFlush 0, .resumeTask 0,
    .continueFlush 2, .resumeTask 2]

theorem tickSettles_covers : ∃ s s₀ s',
    exec (step .plain) (State.init oneNode) openThree = some s ∧
      step .plain s .flushInterval = some s₀ ∧ exec (step .plain) s₀ tickSettles = some s' ∧
      (∀ n, (s'.flushedBy s.nextFlushAll).count n = if s.mem.docs n = none then 0 else 1) ∧
      s'.flushedBy s.nextFlushAll = [1, 2, 3] := by
  have hrun : (exec (step .plain) (State.init oneNode) openThree).any (fun s =>
      (step .plain s .flushInterval).any fun s₀ =>
        (exec (step .plain) s₀ tickSettles).any fun s' =>
          s'.FlushAllResolved s.nextFlushAll ∧ s'.flushedBy s.nextFlushAll = [1, 2, 3]) = true := by
    decide +kernel
  obtain ⟨s, hs, hrun⟩ := (Option.any_eq_true _ _).mp hrun
  obtain ⟨s₀, hs₀, hrun⟩ := (Option.any_eq_true _ _).mp hrun
  obtain ⟨s', hs', hrun⟩ := (Option.any_eq_true _ _).mp hrun
  obtain ⟨hresolved, hnodes⟩ := of_decide_eq_true hrun
  exact ⟨s, s₀, s', hs, hs₀, hs',
    ((flushAll_covers_each_once .plain oneNode s s₀ s' .flushInterval tickSettles
      ⟨openThree, hs⟩ trivial hs₀ hs').2 (by decide)).2 hresolved, hnodes⟩

end AideepWebsocket.DocManager
