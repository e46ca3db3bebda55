import AideepWebsocket.DocManager.Invariant
import AideepWebsocket.DocManager.Loading

/-!
# Whose document a caller gets

`getOrCreateDoc(n)` answers with an object, and its caller may resume after that
object has left `docs`.  What never happens is that the object belongs to another
node: `Owned` says so of every suspended caller and of every load, and
`Owned.awaited` of the object with which a caller resumes.
-/

namespace AideepWebsocket.DocManager

open Library

variable {lex : Lexical} {s s' : State} {e : Event}

/-- The object at `r` exists, and no node but `n` manages it. -/
structure State.OfNode (s : State) (r : DocRef) (n : NodeId) : Prop where
  lt : r < s.mem.nextRef
  node : ∀ {m}, s.mem.docs m = some r → m = n

theorem State.OfNode.of_docs (hI : Inv s) {r : DocRef} {n : NodeId} (h : s.mem.docs n = some r) :
    s.OfNode r n :=
  ⟨hI.docs_lt h, fun hm => hI.docs_inj hm h⟩

/-- Objects do not change hands. -/
theorem State.OfNode.step {r : DocRef} {n : NodeId} (hr : s.OfNode r n)
    (h : step lex s e = some s') : s'.OfNode r n := by
  refine ⟨hr.lt.trans_le (nextRef_le_of_step h), fun hm => ?_⟩
  rcases docs_of_step h hm with hm | ⟨rfl, -, -⟩
  · exact hr.node hm
  · exact absurd hr.lt (lt_irrefl _)

/-- **Loads and callers keep to their node.** -/
structure Owned (s : State) : Prop where
  resolved : ∀ {l x r}, s.loader.loads l = some x → x.phase = .resolved r → s.OfNode r x.nodeId
  ready : ∀ {a n r}, s.awaiting a = some ⟨n, .ready r⟩ → s.OfNode r n
  load : ∀ {a n l first}, s.awaiting a = some ⟨n, .load l first⟩ →
    ∃ x, s.loader.loads l = some x ∧ x.nodeId = n

theorem owned_init (nodes : NodeId → Option NodeRow) : Owned (State.init nodes) where
  resolved h := by cases h
  ready {a n r} h := by cases a <;> cases h
  load {a n l first} h := by cases a <;> cases h

namespace Owned

/-- The object with which a caller of `getOrCreateDoc` resumes is of its node. -/
theorem awaited (hO : Owned s) {a : ℕ ⊕ TaskId} {c : GetCall} (hc : s.awaiting a = some c)
    {r : DocRef} (h : s.awaited c.await = some (.ok r)) : s.OfNode r c.nodeId := by
  obtain ⟨n, r' | ⟨l, first⟩⟩ := c
  · cases h
    exact hO.ready hc
  · obtain ⟨x, hx, rfl⟩ := hO.load hc
    obtain ⟨n, ws, phase⟩ := x
    cases phase with
    | resolved r' =>
        simp only [State.awaited, hx, Option.map_some] at h
        cases h
        exact hO.resolved hx rfl
    | _ => simp [State.awaited, hx] at h

/-- The loads stay, or one of them goes on to its next phase. -/
private theorem of_phase (hO : Owned s) (h : DocManager.step lex s e = some s') {l : LoadId}
    {phase : LoadPhase} (hloader : (s.loader.setPhase l phase).SameLoads s'.loader)
    (hawait : ∀ {b c}, s'.awaiting b = some c → s.awaiting b = some c)
    (hphase : ∀ {x r}, s.loader.loads l = some x → phase = .resolved r → s'.OfNode r x.nodeId) :
    Owned s' where
  resolved {i x' r} hx' hr := by
    rw [hloader.loads] at hx'
    obtain ⟨x, hx, hnode, ⟨-, rfl⟩ | ⟨rfl, hphase'⟩⟩ := setPhase_of_some hx'
    · exact (hO.resolved hx hr).step h
    · rw [hnode]
      exact hphase hx (hphase'.symm.trans hr)
  ready ha := (hO.ready (hawait ha)).step h
  load {a n i first} ha := by
    obtain ⟨x, hx, hnode⟩ := hO.load (hawait ha)
    obtain ⟨x', hx', hnode'⟩ := setPhase_keeps (l := l) phase hx
    exact ⟨x', by rw [hloader.loads, hx'], hnode'.trans hnode⟩

/-- The loads stay, and so do the callers. -/
private theorem of_same (hO : Owned s) (h : DocManager.step lex s e = some s')
    (hloads : s'.loader.loads = s.loader.loads)
    (hawait : ∀ {b c}, s'.awaiting b = some c → s.awaiting b = some c) : Owned s' where
  resolved hx hr := by
    rw [hloads] at hx
    exact (hO.resolved hx hr).step h
  ready ha := (hO.ready (hawait ha)).step h
  load ha := by
    rw [hloads]
    exact hO.load (hawait ha)

private theorem of_ask (hO : Owned s) (hI : Inv s) (hL : LoadInv s)
    (h : DocManager.step lex s e = some s') {a : ℕ ⊕ TaskId} {n : NodeId} {ws : WorkspaceId}
    (hloader : (s.getOrCreateDoc n ws).1.loader.SameLoads s'.loader)
    (hawait : ∀ {b c}, s'.awaiting b = some c →
      s.awaiting b = some c ∨ b = a ∧ c = ⟨n, (s.getOrCreateDoc n ws).2⟩) : Owned s' := by
  rcases getOrCreateDoc_cases s n ws with ⟨r, hdocs, hans, hld⟩ | ⟨l, -, hloading, hans, hld⟩ |
    ⟨-, -, hans, hld⟩
  · -- the document is there
    have hloads : s'.loader.loads = s.loader.loads := by rw [hloader.loads, hld]
    refine ⟨fun hx hr => ?_, fun {b m r'} hb => ?_, fun {b m i first} hb => ?_⟩
    · rw [hloads] at hx
      exact (hO.resolved hx hr).step h
    · rcases hawait hb with hb | ⟨-, hc⟩
      · exact (hO.ready hb).step h
      · rw [hans] at hc
        cases hc
        exact (State.OfNode.of_docs hI hdocs).step h
    · rcases hawait hb with hb | ⟨-, hc⟩
      · rw [hloads]
        exact hO.load hb
      · rw [hans] at hc
        cases hc
  · -- a load is under way
    have hloads : s'.loader.loads = s.loader.loads := by rw [hloader.loads, hld]
    refine ⟨fun hx hr => ?_, fun {b m r'} hb => ?_, fun {b m i first} hb => ?_⟩
    · rw [hloads] at hx
      exact (hO.resolved hx hr).step h
    · rcases hawait hb with hb | ⟨-, hc⟩
      · exact (hO.ready hb).step h
      · rw [hans] at hc
        cases hc
    · rw [hloads]
      rcases hawait hb with hb | ⟨-, hc⟩
      · exact hO.load hb
      · rw [hans] at hc
        cases hc
        exact hL.loading hloading
  · -- a load starts
    have hloads : s'.loader.loads = Function.update s.loader.loads s.loader.nextLoad
        (some ⟨n, ws, .loadFromRedis⟩) := by rw [hloader.loads, hld]
    refine ⟨fun {i x r} hx hr => ?_, fun {b m r'} hb => ?_, fun {b m i first} hb => ?_⟩
    · rw [hloads] at hx
      by_cases hi : i = s.loader.nextLoad
      · rw [hi, Function.update_self] at hx
        cases hx
        cases hr
      · rw [Function.update_of_ne hi] at hx
        exact (hO.resolved hx hr).step h
    · rcases hawait hb with hb | ⟨-, hc⟩
      · exact (hO.ready hb).step h
      · rw [hans] at hc
        cases hc
    · rw [hloads]
      rcases hawait hb with hb | ⟨-, hc⟩
      · obtain ⟨x, hx, hnode⟩ := hO.load hb
        exact ⟨x, by rw [Function.update_of_ne (hL.load_lt hx).ne, hx], hnode⟩
      · rw [hans] at hc
        cases hc
        exact ⟨_, Function.update_self .., rfl⟩

/-- Every step keeps it. -/
theorem step (hO : Owned s) (hI : Inv s) (hL : LoadInv s) (h : DocManager.step lex s e = some s') :
    Owned s' := by
  cases step_loads h with
  | same hloader hawait _ => exact hO.of_same h hloader.loads hawait
  | ask a n ws hloader hawait _ => exact hO.of_ask hI hL h hloader hawait
  | resume a c _ _ hloader hawait _ =>
      exact hO.of_same h (by rw [hloader.loads]; simp) fun hb => (hawait hb).1
  | move l x phase hload hmoves hloader hawait _ =>
      refine hO.of_phase h hloader hawait fun _ hphase => ?_
      cases hmoves with
      | redis _ _ _ _ _ => cases hphase
      | miss _ _ => cases hphase
      | db ok _ _ _ => cases ok <;> cases hphase
  | put l x doc ws hload hdoc hmem hloader hawait =>
      refine hO.of_phase h hloader hawait fun hx hphase => ?_
      cases hphase
      rw [hload] at hx
      cases hx
      -- the new object has just been put under its node
      have hput : s'.mem.docs x.nodeId = some s.mem.nextRef := by
        rw [hmem]
        exact Function.update_self ..
      exact State.OfNode.of_docs (hI.step h) hput
  | restart hloads _ hawait => exact ⟨by simp [hloads], by simp [hawait], by simp [hawait]⟩

end Owned

end AideepWebsocket.DocManager
