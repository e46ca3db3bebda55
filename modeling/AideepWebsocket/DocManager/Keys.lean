import AideepWebsocket.DocManager.Steps

/-!
# The managed nodes

The keys of `docs`, in the order of their insertion, are what `flushAll` goes through.
`KeysInv` says that they are the nodes that have an entry, each once.
-/

namespace AideepWebsocket.DocManager

variable {lex : Lexical} {s s' : State} {e : Event} {n : NodeId}

namespace Memory

/-- The keys of `docs` are the managed nodes, without repetitions. -/
structure KeysInv (m : Memory) : Prop where
  nodup : m.keys.Nodup
  mem_iff : ∀ n, n ∈ m.keys ↔ m.docs n ≠ none

variable {m m' : Memory}

/-- The keys are about `docs` alone. -/
theorem KeysInv.of_eq (h : m.KeysInv) (hdocs : m'.docs = m.docs) (hkeys : m'.keys = m.keys) :
    m'.KeysInv :=
  ⟨hkeys ▸ h.nodup, fun n => by rw [hkeys, hdocs]; exact h.mem_iff n⟩

/-- An empty map has no keys. -/
theorem keysInv_of_none (hdocs : ∀ n, m.docs n = none) (hkeys : m.keys = []) : m.KeysInv :=
  ⟨by rw [hkeys]; exact List.nodup_nil, fun n => by rw [hkeys, hdocs]; simp⟩

/-- A new key comes last; an old one keeps its place. -/
theorem KeysInv.put (h : m.KeysInv) (n : NodeId) (entry : ManagedDoc) :
    (m.put n entry).KeysInv := by
  refine ⟨?_, fun i => ?_⟩
  · show (if n ∈ m.keys then m.keys else m.keys ++ [n]).Nodup
    split
    · exact h.nodup
    · next hn =>
        refine List.nodup_append'.mpr ⟨h.nodup, List.nodup_singleton n, ?_⟩
        exact List.disjoint_singleton.mpr hn
  · show i ∈ (if n ∈ m.keys then m.keys else m.keys ++ [n]) ↔
      Function.update m.docs n (some m.nextRef) i ≠ none
    by_cases hi : i = n
    · subst hi
      rw [Function.update_self]
      split <;> simp_all
    · rw [Function.update_of_ne hi, ← h.mem_iff]
      split <;> simp [hi]

/-- A key that is deleted is gone, and the others keep their order. -/
theorem KeysInv.drop (h : m.KeysInv) (n : NodeId) : (m.drop n).KeysInv := by
  have hclear : ∀ (m : Memory) (t : Option TimerId),
      (m.clearTimeout t).docs = m.docs ∧ (m.clearTimeout t).keys = m.keys := by
    intro m t
    cases t <;> exact ⟨rfl, rfl⟩
  unfold Memory.drop
  split
  · exact h
  · next r hdocs =>
      have hm : ∀ t t', ((m.clearTimeout t).clearTimeout t').docs = m.docs ∧
          ((m.clearTimeout t).clearTimeout t').keys = m.keys := fun t t' =>
        ⟨(hclear _ t').1.trans (hclear m t).1, (hclear _ t').2.trans (hclear m t).2⟩
      refine ⟨?_, fun i => ?_⟩
      · show (List.erase _ n).Nodup
        rw [(hm _ _).2]
        exact h.nodup.erase n
      · show i ∈ List.erase _ n ↔ Function.update (β := fun _ => Option DocRef) _ n none i ≠ none
        rw [(hm _ _).1, (hm _ _).2, h.nodup.mem_erase_iff, h.mem_iff]
        by_cases hi : i = n
        · simp [hi]
        · simp [hi]

/-- An assignment, a timer or a client does not change what is managed. -/
theorem KeysInv.modify (h : m.KeysInv) (r : DocRef) (f : ManagedDoc → ManagedDoc) :
    (m.modify r f).KeysInv := h.of_eq rfl rfl

/-- Timers are no documents. -/
theorem KeysInv.clearTimeout (h : m.KeysInv) (t : Option TimerId) : (m.clearTimeout t).KeysInv := by
  cases t <;> exact h.of_eq rfl rfl

/-- An eviction deletes one key. -/
theorem KeysInv.evictDoc (h : m.KeysInv) (n : NodeId) : (m.evictDoc n).KeysInv := by
  rcases m.evictDoc_cases n with ⟨heq, -⟩ | ⟨heq, -⟩ <;> rw [heq]
  · exact h
  · exact h.drop n

end Memory

/-- The start of a load puts nothing into the map. -/
private theorem keysInv_getOrCreateDoc (h : s.mem.KeysInv) (nodeId : NodeId) (ws : WorkspaceId) :
    (s.getOrCreateDoc nodeId ws).1.mem.KeysInv := by
  unfold State.getOrCreateDoc
  split
  · next r _ =>
      show (s.mem.cancelIdle r).KeysInv
      unfold Memory.cancelIdle
      split
      · exact h
      · exact (h.clearTimeout _).modify _ _
  · split <;> exact h

/-- A flush puts nothing into the map either. -/
private theorem keysInv_flushDocLocked {s₁ : State} (h : s₁.mem.KeysInv) (t : TaskId) (x : Task)
    (knownMarkdown : Option String) :
    (s₁.flushDocLocked lex t x n knownMarkdown).mem.KeysInv := by
  have hcleared := fun r => (h.clearTimeout (s₁.mem.heap r).saveTimer).modify r
    fun d => { d with saveTimer := none }
  unfold State.flushDocLocked
  split
  · exact h
  · dsimp only
    split
    · next r _ _ => exact (hcleared r).of_eq rfl rfl
    · split
      · exact hcleared _
      · split <;> exact hcleared _

/-- **The keys of `docs`** are the managed nodes in every state of a run. -/
theorem keysInv_of_step (h : step lex s e = some s') (hI : s.mem.KeysInv) : s'.mem.KeysInv := by
  by_cases hkeeps : e.KeepsMemory
  · rw [mem_of_keepsMemory h hkeeps]
    exact hI
  cases e with
  | getOrCreateDoc nodeId ws =>
      cases h
      exact keysInv_getOrCreateDoc hI nodeId ws
  | addClient nodeId socketId =>
      cases h
      show (s.mem.addClient nodeId socketId).KeysInv
      unfold Memory.addClient
      split
      · exact hI
      · exact hI.modify _ _
  | removeClient nodeId socketId =>
      cases h
      unfold State.removeClient
      split
      · exact hI
      · dsimp only
        split <;> exact hI.of_eq rfl rfl
  | applyToDoc nodeId update =>
      cases h
      show (s.mem.applyToDoc nodeId update).KeysInv
      unfold Memory.applyToDoc
      split
      · exact hI
      · exact hI.modify _ _
  | scheduleSave nodeId userId =>
      cases h
      show (s.mem.scheduleSave nodeId userId).KeysInv
      unfold Memory.scheduleSave
      split
      · exact hI
      · next r _ => exact (hI.clearTimeout (s.mem.heap r).saveTimer).of_eq rfl rfl
  | cleanupNode nodeId =>
      cases h
      exact hI.drop nodeId
  | finishDestroy =>
      obtain ⟨call, -, rfl⟩ := State.finishDestroy_cases s h
      exact Memory.keysInv_of_none (fun _ => rfl) rfl
  | fireTimer timer =>
      obtain ⟨nodeId, ⟨-, rfl⟩ | ⟨-, rfl⟩⟩ := State.fireTimer_cases s h
      · exact hI.clearTimeout (some timer)
      · exact (hI.clearTimeout (some timer)).evictDoc nodeId
  | continueLoad l =>
      obtain ⟨x, -, ⟨-, rfl⟩ | ⟨state, ws, rfl, -⟩⟩ := State.continueLoad_cases s h
      · exact hI
      · exact hI.put x.nodeId _
  | startTask t =>
      obtain ⟨entry, -, -, -, ⟨caller, -, rfl⟩ | ⟨ws, markdown, userId, -, rfl⟩⟩ :=
        State.startTask_cases s h
      · exact keysInv_flushDocLocked hI t _ _
      · exact keysInv_getOrCreateDoc hI entry.key ws
  | resumeAppend t clientId =>
      obtain ⟨entry, await, ws, markdown, userId, -, -, -, hcase⟩ := State.resumeAppend_cases s h
      rcases hcase with ⟨failure, -, rfl⟩ | ⟨r, result, -, -, ⟨-, rfl⟩ | ⟨r', -, rfl⟩⟩
      · simpa using hI
      · exact hI.of_eq rfl rfl
      · refine keysInv_flushDocLocked ?_ t _ _
        exact hI.of_eq rfl rfl
  | continueFlush t =>
      obtain ⟨entry, -, ⟨result, rfl, -⟩ | ⟨r, save, sv, persisted, -, -, ⟨-, rfl⟩ | ⟨userId, rfl⟩⟩⟩ :=
        State.continueFlush_cases s h
      · exact hI
      · exact hI.of_eq rfl rfl
      · exact hI.of_eq rfl rfl
  | resumeTask t =>
      obtain ⟨entry, -, hmem | ⟨-, hmem⟩⟩ := State.mem_resumeTask s h
      · rw [hmem]
        exact hI
      · rw [hmem]
        exact hI.drop entry.key
  | restart =>
      cases h
      exact Memory.keysInv_of_none (fun _ => rfl) rfl
  | _ => exact absurd trivial hkeeps

end AideepWebsocket.DocManager
