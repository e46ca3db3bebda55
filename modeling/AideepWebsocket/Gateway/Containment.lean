import AideepWebsocket.Gateway.Convergence
import AideepWebsocket.Gateway.Outputs

/-!
# The server holds what it has sent

A client that is sent a change relies on the server to persist it and to give it
to those who join later.  Both go through the managed document, so what is sent
for a managed node has to be in its document.

A relayed Update is, since `readSyncMessage` has applied it.  The update of an
append is in the document that the append has edited; whether that is the managed
one when it is broadcast depends on the loads in between.  A `YJS_UPDATE` of the
event bus is passed on as it is: nothing applies it.

`sentHeld` says that every sync message is contained in the document of its node
in every run in which those two do no harm (`Sourced`).
-/

namespace AideepWebsocket.Gateway

open Library
open DocManager (DocRef TaskId ManagerInv)

variable {lex : Lexical} {verify : String → Option UserId} {s s' : State} {e : Event}

/-- **What is sent is held**: the document of a managed node contains the changes
of every sync message that the step sends for it. -/
def SentHeld (lex : Lexical) (verify : String → Option UserId) (s : State) (e : Event)
    (s' : State) : Prop :=
  ∀ recipients n msg, .emit recipients (.yjsSync n msg) ∈ outputs lex verify s e →
    ∀ r, s'.manager.mem.docs n = some r → msg.changes ≤ (s'.manager.mem.heap r).doc

/-- What is sent by the server itself comes from the managed document.

* An update of the event bus brings a managed document nothing new.
* An append edits the managed object of its node.
* A load finds the updates of the appends that are still to be broadcast. -/
def Sourced (s : State) (e : Event) (_ : State) : Prop :=
  match e with
  | .broadcastYjsUpdate n u => ∀ r ∈ s.manager.mem.docs n, u ≤ (s.manager.mem.heap r).doc
  | .manager (.resumeAppend t _) => s.manager.EditsManaged t
  | .manager (.continueLoad l) => s.manager.LoadsUpdates s.announced l
  | _ => True

instance (s : State) (e : Event) (s' : State) : Decidable (Sourced s e s') := by
  unfold Sourced
  split <;> infer_instance

/-- The invariant: the managed documents contain the updates that are still to be
broadcast. -/
structure Holding (s : State) : Prop where
  manager : ManagerInv s.manager
  contains : s.manager.Contains s.announced

theorem holding_init (nodes : NodeId → Option DocManager.NodeRow)
    (memberships : UserId → WorkspaceId → Option Role) :
    Holding (State.init nodes memberships) where
  manager := DocManager.managerInv_init nodes
  contains t n u r hc ht hdocs := by cases hdocs

private theorem contains_mono {m : DocManager.State} {announced announced' : Finset TaskId}
    (hC : m.Contains announced) (hsub : announced ⊆ announced') : m.Contains announced' :=
  fun t n u r hc ht => hC t n u r hc fun hmem => ht (hsub hmem)

/-- A run of the manager in which no append resumes and no load ends keeps the
containment. -/
private theorem contains_of_exec {m m' : DocManager.State} {announced : Finset TaskId}
    {es : List DocManager.Event} (hM : ManagerInv m) (hC : m.Contains announced)
    (h : exec (DocManager.step lex) m es = some m')
    (hes : ∀ x ∈ es, (∀ t clientId, x ≠ .resumeAppend t clientId) ∧ ∀ l, x ≠ .continueLoad l) :
    m'.Contains announced := by
  induction es generalizing m with
  | nil =>
      cases h
      exact hC
  | cons x es ih =>
      rw [exec_cons, Option.bind_eq_some_iff] at h
      obtain ⟨m₁, hstep, h⟩ := h
      obtain ⟨hresume, hload⟩ := hes x List.mem_cons_self
      refine ih (hM.step hstep) ?_ h fun y hy => hes y (List.mem_cons_of_mem _ hy)
      exact hC.step hM.inv hM.unedited hstep (fun t clientId he => absurd he (hresume t clientId))
        fun l he => absurd he (hload l)

theorem Holding.step (hH : Holding s) (h : Gateway.step lex verify s e = some s')
    (hsourced : Sourced s e s') : Holding s' := by
  have hM := hH.manager
  refine ⟨managerInv_of_step hM h, ?_⟩
  have hsub : s.announced ⊆ s'.announced := by
    rcases announced_of_step h with hsame | ⟨t, -, hinsert⟩
    · exact hsame.ge
    · rw [hinsert]
      exact Finset.subset_insert _ _
  refine contains_mono ?_ hsub
  by_cases hmanager : ∃ x, e = .manager x
  · obtain ⟨x, rfl⟩ := hmanager
    obtain ⟨-, hstep⟩ := manager_step h
    refine hH.contains.step hM.inv hM.unedited hstep ?_ ?_
    · rintro t clientId rfl
      exact hsourced
    · rintro l rfl
      exact hsourced
  · refine contains_of_exec hM hH.contains (exec_manager h) fun x hx => ?_
    cases managerCall_of_mem hx with
    | manager _ he => exact absurd ⟨_, he⟩ hmanager
    | _ => exact ⟨fun _ _ => by simp, fun _ => by simp⟩

/-- The caller of an append announces the update that its task carries. -/
private theorem carries_of_announce {t : TaskId} {n : NodeId} {u : YDoc}
    (h : Gateway.step lex verify s (.announce t) = some s') (hedited : s.manager.Edited t n u) :
    t ∉ s.announced ∧ s.manager.Carries t n u := by
  obtain ⟨entry, htask, hkey, hupdate⟩ := hedited
  have h := step_eq_some.mp h
  rw [handle, State.announce] at h
  split at h
  · cases h
  · next hnew =>
      rw [htask] at h
      dsimp only at h
      split at h
      · next p u' hphase _ => exact ⟨hnew, entry, htask, hkey, hupdate, by rw [hphase]; rfl⟩
      · cases h

/-- A sync message leaves `docs` as it is. -/
private theorem docs_of_yjsSync {socket : SocketId} {n : NodeId} {data : SyncMessage} {r : DocRef}
    (h : Gateway.step lex verify s (.yjsSync socket n data) = some s')
    (hr : s.manager.mem.docs n = some r) : s'.manager.mem.docs = s.manager.mem.docs := by
  obtain ⟨answer, -, heq⟩ := handleYjsSync_managed socket data hr
  rw [handleYjsSync_of_step h] at heq
  have hstate := congrArg Prod.fst heq
  dsimp only at hstate
  split at hstate
  · rw [hstate]
    exact (DocManager.Memory.sameDocs_scheduleSave (s.manager.mem.modify r fun d =>
      { d with doc := (s.manager.mem.heap r).doc ⊔ data.changes }) n (s.data socket).userId).docs
  · rw [hstate]
    rfl

/-- **One step** sends what the managed documents hold. -/
theorem Holding.sends (hH : Holding s) (h : Gateway.step lex verify s e = some s')
    (hsourced : Sourced s e s') : SentHeld lex verify s e s' := by
  intro recipients n msg hout r' hdocs'
  cases sync_of_outputs hout with
  | asked k sv he => exact bot_le
  | answer socket sv r he hdocs _ =>
      subst he
      have hr : r = r' := by
        rw [docs_of_yjsSync h hdocs, hdocs] at hdocs'
        exact Option.some.inj hdocs'
      subst hr
      rw [doc_of_yjsSync h hdocs]
      exact (encodeStateAsUpdate_le _ sv).trans le_sup_left
  | relay socket u r he hdocs _ _ =>
      subst he
      have hr : r = r' := by
        rw [docs_of_yjsSync h hdocs, hdocs] at hdocs'
        exact Option.some.inj hdocs'
      subst hr
      rw [doc_of_yjsSync h hdocs]
      exact le_sup_right
  | broadcast u he _ =>
      rcases he with rfl | ⟨t, entry, rfl, htask, rfl, hupdate⟩
      · cases h
        exact hsourced r' hdocs'
      · obtain ⟨hnew, hc⟩ := carries_of_announce h ⟨entry, htask, rfl, hupdate⟩
        rw [(announce_step h).1] at hdocs' ⊢
        exact hH.contains t entry.key u r' hc hnew hdocs'

/-! ### Runs -/

/-- **The server holds what it sends**, in every run of the gateway in which its
own broadcasts come from the managed documents. -/
theorem sentHeld (lex : Lexical) (verify : String → Option UserId)
    (nodes : NodeId → Option DocManager.NodeRow)
    (memberships : UserId → WorkspaceId → Option Role) {es : List Event}
    (hsourced : Along (step lex verify) Sourced (State.init nodes memberships) es) :
    Along (step lex verify) (SentHeld lex verify) (State.init nodes memberships) es := by
  refine along_of_invariant (I := Holding) ?_ (holding_init nodes memberships) hsourced
  intro s e s' hstep hH hguard
  exact ⟨hH.step hstep hguard, hH.sends hstep hguard⟩

/-- An editor opens the node and types; then an append is made, saved and
broadcast. -/
def typedThenAppended : List Event :=
  joinSession 0 "token of 9" 7 0 ++ openNode 0 1 ++
    [.yjsSync 0 1 (.update ⟨{(4, 0)}, ∅⟩), .manager (.appendMarkdown 1 7 "Body" 9),
      .manager (.startTask 0), .manager (.resumeAppend 0 5), .manager (.redisReply .ok),
      .manager (.updateNodeRow 0 .ok 0), .manager (.attachmentsSynced 0 true),
      .manager (.continueFlush 0), .manager (.enqueued 0 true), .manager (.resumeTask 0),
      .announce 0]

/-- The API server publishes an update for the node that the editor has open. -/
def busUpdate : List Event :=
  joinSession 0 "token of 9" 7 0 ++ openNode 0 1 ++ [.broadcastYjsUpdate 1 ⟨{(4, 0)}, ∅⟩]

theorem typedThenAppended_held :
    Along (step .plain plainToken) Sourced (State.init DocManager.oneNode twoEditors)
        typedThenAppended ∧
      Along (step .plain plainToken) (SentHeld .plain plainToken)
        (State.init DocManager.oneNode twoEditors) typedThenAppended :=
  have hsourced : Along (step .plain plainToken) Sourced
      (State.init DocManager.oneNode twoEditors) typedThenAppended := by decide +kernel
  ⟨hsourced, sentHeld .plain plainToken DocManager.oneNode twoEditors hsourced⟩

/-- The editor is sent an insertion that the document of the node never gets. -/
theorem busUpdate_not_held :
    ¬ Along (step .plain plainToken) (SentHeld .plain plainToken)
        (State.init DocManager.oneNode twoEditors) busUpdate := by
  intro h
  have hrun : (exec (step .plain plainToken) (State.init DocManager.oneNode twoEditors)
      (joinSession 0 "token of 9" 7 0 ++ openNode 0 1)).any (fun s =>
        (s.manager.mem.docs 1).any fun r => 0 ∈ s.inRoom (.yjsRoom 1) ∧
          ¬ (⟨{(4, 0)}, ∅⟩ : YDoc) ≤ (s.manager.mem.heap r).doc) = true := by
    decide +kernel
  obtain ⟨s, hs, hrun⟩ := (Option.any_eq_true _ _).mp hrun
  obtain ⟨r, hdocs, hrun⟩ := (Option.any_eq_true _ _).mp hrun
  obtain ⟨-, hmissing⟩ := of_decide_eq_true hrun
  have hlast : SentHeld .plain plainToken s (.broadcastYjsUpdate 1 ⟨{(4, 0)}, ∅⟩) s :=
    h.at_step hs rfl
  exact hmissing (hlast (s.inRoom (.yjsRoom 1)) 1 (.update ⟨{(4, 0)}, ∅⟩)
    (List.mem_singleton_self _) r hdocs)

end AideepWebsocket.Gateway
