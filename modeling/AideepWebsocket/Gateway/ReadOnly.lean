import AideepWebsocket.DocManager.Steps
import AideepWebsocket.Gateway.Handlers

/-!
# What read-only sockets can do

A socket that joined a node as VIEWER, or that never completed `yjs:join` for it,
may not write to its document.  `handleYjsSync` first lets `readSyncMessage`
apply the message and looks at the recorded role only before it relays an Update,
and a socket without a record is not stopped at all.

`readOnly_iff` says exactly which messages of such sockets are without effect:
those for a node that is not managed, and those that carry nothing new and would
not be relayed.  A run all of whose forbidden messages are of this kind is, with
these messages left out, the same run: every other event happens in the same
state and sends the same, and the stores end the same.  So nothing that the
forbidden sockets sent has been relayed, answered to another client or saved.
-/

namespace AideepWebsocket.Gateway

open Library

variable {lex : Lexical} {verify : String → Option UserId} {s s' : State} {e : Event}

/-- The socket has joined the node as VIEWER, or has not joined it: no completed
`yjs:join` has recorded that it may write. -/
def State.MayNotWrite (s : State) (socket : SocketId) (nodeId : NodeId) : Prop :=
  (s.data socket).yjsReadOnly nodeId ≠ some false

instance (s : State) (socket : SocketId) (nodeId : NodeId) :
    Decidable (s.MayNotWrite socket nodeId) :=
  inferInstanceAs (Decidable (_ ≠ _))

/-- A `yjs:sync` message of a socket that may not write. -/
def forbidden : State × Event → Bool
  | (s, .yjsSync socket nodeId _) => s.MayNotWrite socket nodeId
  | _ => false

/-- A forbidden message changes nothing, and is answered to its sender at most. -/
def ReadOnly (lex : Lexical) (verify : String → Option UserId) (s : State) (e : Event)
    (s' : State) : Prop :=
  ∀ socket nodeId data, e = .yjsSync socket nodeId data → s.MayNotWrite socket nodeId →
    s' = s ∧ ∀ out ∈ outputs lex verify s e, ∃ event, out = s.emit socket event

/-- A forbidden message is for a node that is not managed; or it carries nothing
new, and is not an Update of a socket that has not joined the node. -/
def Harmless (s : State) (e : Event) (_ : State) : Prop :=
  match e with
  | .yjsSync socket nodeId data => s.MayNotWrite socket nodeId →
      ∀ r ∈ s.manager.mem.docs nodeId, data.changes ≤ (s.manager.mem.heap r).doc ∧
        (data.messageType = 2 → (s.data socket).yjsReadOnly nodeId = some true)
  | _ => True

instance (s : State) (e : Event) (s' : State) : Decidable (Harmless s e s') := by
  unfold Harmless
  split <;> infer_instance

/-! ### One message -/

/-- What `handleYjsSync` does to a managed document. -/
theorem handleYjsSync_managed {nodeId : NodeId} {r : DocManager.DocRef} (socket : SocketId)
    (data : SyncMessage) (h : s.manager.mem.docs nodeId = some r) :
    ∃ answer : List Output, (∀ out ∈ answer, ∃ event, out = s.emit socket event) ∧
      s.handleYjsSync socket nodeId data =
        let s₁ := s.setMem (s.manager.mem.modify r fun d =>
          { d with doc := (s.manager.mem.heap r).doc ⊔ data.changes })
        if data.messageType = 2 ∧ (s.data socket).yjsReadOnly nodeId ≠ some true then
          (s₁.setMem (s₁.manager.mem.scheduleSave nodeId (s.data socket).userId),
            answer ++ [s.emitToOthers socket (.yjsRoom nodeId) (.yjsSync nodeId data)])
        else (s₁, answer) := by
  refine ⟨((readSyncMessage (s.manager.mem.heap r).doc data).reply.toList.map fun reply =>
    s.emit socket (.yjsSync nodeId reply)), fun out hout => ?_, ?_⟩
  · obtain ⟨reply, -, rfl⟩ := List.mem_map.mp hout
    exact ⟨_, rfl⟩
  · unfold State.handleYjsSync
    rw [h]
    by_cases htype : data.messageType = 2 <;>
      by_cases hread : (s.data socket).yjsReadOnly nodeId = some true <;>
        simp [htype, hread]

/-- An update that carries nothing new leaves the memory as it is. -/
private theorem modify_doc_of_le {m : DocManager.Memory} {r : DocManager.DocRef} {u : YDoc}
    (h : u ≤ (m.heap r).doc) :
    m.modify r (fun d => { d with doc := (m.heap r).doc ⊔ u }) = m := by
  unfold DocManager.Memory.modify
  rw [sup_eq_left.mpr h]
  simp

/-- **One forbidden message** has no effect exactly when it is harmless. -/
theorem readOnly_iff_harmless (h : step lex verify s e = some s') :
    ReadOnly lex verify s e s' ↔ Harmless s e s' := by
  constructor
  · intro hreadOnly
    cases e with
    | yjsSync socket nodeId data =>
        intro hforbidden r hr
        obtain ⟨rfl, -⟩ := hreadOnly socket nodeId data rfl hforbidden
        obtain ⟨answer, -, heq⟩ := handleYjsSync_managed socket data hr
        rw [handleYjsSync_of_step h] at heq
        -- the state is left as it is, so no save was scheduled and the document did not grow
        have hstate := congrArg Prod.fst heq
        dsimp only at hstate
        split at hstate
        · have hscheduled := DocManager.Memory.saveScheduled (m := s'.manager.mem.modify r fun d =>
            { d with doc := (s'.manager.mem.heap r).doc ⊔ data.changes }) hr (s'.data socket).userId
          have hnext := congrArg (fun s : State => s.manager.mem.nextTimer) hstate
          exact absurd (hnext.trans hscheduled.nextTimer) (Nat.succ_ne_self _).symm
        · next hrelay =>
            have hdoc := congrArg (fun s : State => (s.manager.mem.heap r).doc) hstate
            simp only [State.setMem, DocManager.Memory.modify, Function.update_self] at hdoc
            exact ⟨left_eq_sup.mp hdoc, fun htype => by simpa [htype] using hrelay⟩
    | _ => trivial
  · rintro hharmless socket nodeId data rfl hforbidden
    have hout := handleYjsSync_of_step h
    cases hr : s.manager.mem.docs nodeId with
    | none =>
        rw [State.handleYjsSync, hr] at hout
        obtain ⟨rfl, hnone⟩ := Prod.mk.inj hout
        rw [← hnone]
        exact ⟨rfl, by simp⟩
    | some r =>
        obtain ⟨hle, hrelay⟩ := hharmless hforbidden r hr
        obtain ⟨answer, hanswer, heq⟩ := handleYjsSync_managed socket data hr
        rw [hout, modify_doc_of_le hle, if_neg (fun h => h.2 (hrelay h.1))] at heq
        obtain ⟨rfl, houts⟩ := Prod.mk.inj heq
        rw [houts]
        exact ⟨rfl, hanswer⟩

/-! ### Runs -/

/-- **Read-only sockets.**  The forbidden messages of a run are without effect
exactly when they are all harmless; and then the run without them goes through
the same states, with every other event in the state in which it was. -/
theorem readOnly_iff (lex : Lexical) (verify : String → Option UserId)
    (nodes : NodeId → Option DocManager.NodeRow)
    (memberships : UserId → WorkspaceId → Option Role) (es : List Event) :
    (Along (step lex verify) (ReadOnly lex verify) (State.init nodes memberships) es ↔
        Along (step lex verify) Harmless (State.init nodes memberships) es) ∧
      (Along (step lex verify) Harmless (State.init nodes memberships) es →
        ∀ fin, exec (step lex verify) (State.init nodes memberships) es = some fin →
          let es' := without (step lex verify) forbidden (State.init nodes memberships) es
          exec (step lex verify) (State.init nodes memberships) es' = some fin ∧
            path (step lex verify) (State.init nodes memberships) es' =
              (path (step lex verify) (State.init nodes memberships) es).filter
                fun x => !forbidden x) := by
  refine ⟨along_congr ?_, fun h fin hes => ?_⟩
  · intro s e s' hstep
    exact readOnly_iff_harmless hstep
  refine exec_without ?_ hes
  refine h.mono_step fun s e s' hstep hharmless hforbidden => ?_
  have hreadOnly := (readOnly_iff_harmless hstep).mpr hharmless
  cases e with
  | yjsSync socket nodeId data =>
      exact (hreadOnly socket nodeId data rfl (of_decide_eq_true hforbidden)).1
  | _ => cases hforbidden

/-- User `9` is a VIEWER of workspace `7`. -/
def viewer : UserId → WorkspaceId → Option Role := members [(9, 7, .VIEWER)]

/-- The VIEWER opens the node, and sends what only asks for the document. -/
def viewerReads : List Event :=
  joinSession 0 "token of 9" 7 0 ++ openNode 0 1 ++ [.yjsSync 0 1 (.syncStep1 ∅)]

theorem viewerReads_readOnly :
    Along (step .plain plainToken) Harmless (State.init DocManager.oneNode viewer) viewerReads ∧
      Along (step .plain plainToken) (ReadOnly .plain plainToken)
        (State.init DocManager.oneNode viewer) viewerReads :=
  have hharmless : Along (step .plain plainToken) Harmless
      (State.init DocManager.oneNode viewer) viewerReads := by decide +kernel
  ⟨hharmless, (readOnly_iff .plain plainToken DocManager.oneNode viewer viewerReads).1.mpr
    hharmless⟩

/-- The VIEWER opens the node, answers the server's SyncStep1 with an insertion,
and leaves; the flush of the last leave saves the document. -/
def viewerWrites : List Event :=
  (joinSession 0 "token of 9" 7 0 ++ openNode 0 1) ++
    .yjsSync 0 1 (.syncStep2 ⟨{(4, 0)}, ∅⟩) ::
    [.yjsLeave 0 1, .manager (.startTask 0), .manager (.redisReply .ok),
      .manager (.updateNodeRow 0 .ok 10)]

/-- The insertion of a VIEWER is in the document, and in the row. -/
theorem viewerWrites_not_readOnly :
    ¬ Along (step .plain plainToken) (ReadOnly .plain plainToken)
        (State.init DocManager.oneNode viewer) viewerWrites ∧
      (exec (step .plain plainToken) (State.init DocManager.oneNode viewer) viewerWrites).any
        (fun s => (s.data 0).yjsReadOnly 1 = some true ∧
          s.manager.mem.getDoc 1 = some ⟨{(4, 0)}, ∅⟩ ∧
          s.manager.row 1 = some ⟨{(4, 0)}, ∅⟩) = true := by
  refine ⟨fun h => ?_, by decide +kernel⟩
  have hrun : (exec (step .plain plainToken) (State.init DocManager.oneNode viewer)
      (joinSession 0 "token of 9" 7 0 ++ openNode 0 1)).any (fun s =>
        (step .plain plainToken s (.yjsSync 0 1 (.syncStep2 ⟨{(4, 0)}, ∅⟩))).any fun s' =>
          s.MayNotWrite 0 1 ∧ s.manager.mem.getDoc 1 ≠ s'.manager.mem.getDoc 1) = true := by
    decide +kernel
  obtain ⟨s, hs, hrun⟩ := (Option.any_eq_true _ _).mp hrun
  obtain ⟨s', hs', hrun⟩ := (Option.any_eq_true _ _).mp hrun
  obtain ⟨hforbidden, hne⟩ := of_decide_eq_true hrun
  obtain ⟨rfl, -⟩ := h.at_step hs hs' 0 1 _ rfl hforbidden
  exact hne rfl

end AideepWebsocket.Gateway
