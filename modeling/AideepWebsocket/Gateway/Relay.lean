import AideepWebsocket.Gateway.ReadOnly

/-!
# What the gateway relays

`handleYjsSync` lets `readSyncMessage` apply a message and then looks at its
type: an Update is relayed to the room and a save is scheduled, a SyncStep2 is
not.  Yet a SyncStep2 changes the document as an Update does: it is what a client
that has edited offline answers to the SyncStep1 that `handleYjsJoin` sends it.

`relayed_iff_covered` says which messages of those who may write are relayed and
saved whenever they change the document: those that are Updates, and those that
carry nothing new.
-/

namespace AideepWebsocket.Gateway

open Library

variable {lex : Lexical} {verify : String → Option UserId} {s s' : State} {e : Event}

/-- The socket has joined the node as EDITOR or OWNER. -/
def State.MayWrite (s : State) (socket : SocketId) (nodeId : NodeId) : Prop :=
  socket ∈ s.rooms (.yjsRoom nodeId) ∧ (s.data socket).yjsReadOnly nodeId = some false

instance (s : State) (socket : SocketId) (nodeId : NodeId) :
    Decidable (s.MayWrite socket nodeId) :=
  inferInstanceAs (Decidable (_ ∧ _))

/-- The others in the room of the node are sent an update with which the document
before becomes the document after. -/
def SentToOthers (lex : Lexical) (verify : String → Option UserId) (s : State) (e : Event)
    (s' : State) (socket : SocketId) (nodeId : NodeId) (r : DocManager.DocRef) : Prop :=
  ∃ u, .emit ((s.inRoom (.yjsRoom nodeId)).erase socket) (.yjsSync nodeId (.update u)) ∈
      outputs lex verify s e ∧
    (s'.manager.mem.heap r).doc ≤ applyUpdate (s.manager.mem.heap r).doc u

/-- A sync message of one who may write, if it changes the document, is relayed,
and a save is scheduled with its user. -/
def Relayed (lex : Lexical) (verify : String → Option UserId) (s : State) (e : Event)
    (s' : State) : Prop :=
  ∀ socket nodeId data r, e = .yjsSync socket nodeId data → s.MayWrite socket nodeId →
    s.manager.mem.docs nodeId = some r →
    (s'.manager.mem.heap r).doc ≠ (s.manager.mem.heap r).doc →
    SentToOthers lex verify s e s' socket nodeId r ∧
      s.manager.mem.SaveScheduled s'.manager.mem nodeId (s.data socket).userId

/-- A sync message of one who may write is an Update, or carries nothing new. -/
def Covered (s : State) (e : Event) (_ : State) : Prop :=
  match e with
  | .yjsSync socket nodeId data => s.MayWrite socket nodeId →
      ∀ r ∈ s.manager.mem.docs nodeId,
        data.messageType = 2 ∨ data.changes ≤ (s.manager.mem.heap r).doc
  | _ => True

instance (s : State) (e : Event) (s' : State) : Decidable (Covered s e s') := by
  unfold Covered
  -- `casesOn` puts no equation about the event into the instance
  induction e using Event.casesOn <;> infer_instance

/-- What the document becomes, whatever else is done with the message. -/
theorem doc_of_yjsSync {socket : SocketId} {nodeId : NodeId} {data : SyncMessage}
    {r : DocManager.DocRef} (h : step lex verify s (.yjsSync socket nodeId data) = some s')
    (hr : s.manager.mem.docs nodeId = some r) :
    (s'.manager.mem.heap r).doc = (s.manager.mem.heap r).doc ⊔ data.changes := by
  obtain ⟨answer, -, heq⟩ := handleYjsSync_managed socket data hr
  rw [handleYjsSync_of_step h] at heq
  have hstate := congrArg Prod.fst heq
  dsimp only at hstate
  split at hstate
  · rw [hstate]
    have hsame := DocManager.Memory.sameDocs_scheduleSave (s.manager.mem.modify r fun d =>
      { d with doc := (s.manager.mem.heap r).doc ⊔ data.changes }) nodeId (s.data socket).userId
    refine (hsame.doc r).trans ?_
    simp [DocManager.Memory.modify]
  · rw [hstate]
    simp [State.setMem, DocManager.Memory.modify]

/-- An Update of a socket that is not recorded as read-only is relayed as it is. -/
theorem relay_of_update {socket : SocketId} {nodeId : NodeId} {u : YDoc}
    {r : DocManager.DocRef}
    (h : step lex verify s (.yjsSync socket nodeId (.update u)) = some s')
    (hr : s.manager.mem.docs nodeId = some r)
    (hread : (s.data socket).yjsReadOnly nodeId ≠ some true) :
    .emit ((s.inRoom (.yjsRoom nodeId)).erase socket) (.yjsSync nodeId (.update u)) ∈
        outputs lex verify s (.yjsSync socket nodeId (.update u)) ∧
      s.manager.mem.SaveScheduled s'.manager.mem nodeId (s.data socket).userId := by
  obtain ⟨answer, -, heq⟩ := handleYjsSync_managed socket (.update u) hr
  rw [handleYjsSync_of_step h] at heq
  dsimp only at heq
  rw [if_pos ⟨rfl, hread⟩] at heq
  obtain ⟨hstate, hout⟩ := Prod.mk.inj heq
  rw [hout, hstate]
  refine ⟨List.mem_append_right _ (List.mem_singleton_self _), ?_⟩
  -- the timer is set in the memory that the update has been applied to
  obtain ⟨hnext, htimer, hentry⟩ := DocManager.Memory.saveScheduled
    (m := s.manager.mem.modify r fun d =>
      { d with doc := (s.manager.mem.heap r).doc ⊔ SyncMessage.changes (.update u) })
    hr (s.data socket).userId
  exact ⟨hnext, htimer, hentry⟩

/-- A message that is not an Update sets no timer. -/
private theorem nextTimer_of_yjsSync {socket : SocketId} {nodeId : NodeId} {data : SyncMessage}
    {r : DocManager.DocRef} (h : step lex verify s (.yjsSync socket nodeId data) = some s')
    (hr : s.manager.mem.docs nodeId = some r) (htype : data.messageType ≠ 2) :
    s'.manager.mem.nextTimer = s.manager.mem.nextTimer := by
  obtain ⟨answer, -, heq⟩ := handleYjsSync_managed socket data hr
  rw [handleYjsSync_of_step h] at heq
  dsimp only at heq
  rw [if_neg fun hrelay => htype hrelay.1] at heq
  rw [(Prod.mk.inj heq).1]
  rfl

/-- **One message** is relayed and saved, if it changes the document, exactly when
it is an Update or carries nothing new. -/
theorem relayed_iff_covered (h : step lex verify s e = some s') :
    Relayed lex verify s e s' ↔ Covered s e s' := by
  constructor
  · intro hrelayed
    cases e with
    | yjsSync socket nodeId data =>
        intro hwrite r hr
        by_contra hnot
        rw [not_or] at hnot
        obtain ⟨htype, hnew⟩ := hnot
        have hchanged : (s'.manager.mem.heap r).doc ≠ (s.manager.mem.heap r).doc := by
          rw [doc_of_yjsSync h hr]
          exact fun hsame => hnew (sup_eq_left.mp hsame)
        obtain ⟨-, hsave⟩ := hrelayed socket nodeId data r rfl hwrite hr hchanged
        have hnext := hsave.nextTimer
        rw [nextTimer_of_yjsSync h hr htype] at hnext
        exact Nat.succ_ne_self _ hnext.symm
    | _ => trivial
  · rintro hcovered socket nodeId data r rfl hwrite hr hchanged
    have hdoc := doc_of_yjsSync h hr
    rcases hcovered hwrite r hr with htype | hold
    · obtain ⟨u, rfl⟩ : ∃ u, data = .update u := by
        cases data with
        | update u => exact ⟨u, rfl⟩
        | _ => cases htype
      obtain ⟨hout, hsave⟩ := relay_of_update h hr (by simp [hwrite.2])
      exact ⟨⟨u, hout, hdoc.le⟩, hsave⟩
    · rw [hdoc, sup_eq_left.mpr hold] at hchanged
      exact absurd rfl hchanged

end AideepWebsocket.Gateway
