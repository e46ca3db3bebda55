import AideepWebsocket.Gateway.Handlers

/-!
# Which sync messages the gateway sends

A `yjs:sync` event leaves the gateway for one of four reasons: a SyncStep1 is
answered, an Update is relayed, a completed `yjs:join` asks the client for what it
has, or an update is broadcast on behalf of the server.
-/

namespace AideepWebsocket.Gateway

open DocManager (DocRef TaskId)

variable {lex : Lexical} {verify : String → Option UserId} {s s' : State} {e : Event}
  {recipients : Finset SocketId} {n : NodeId} {msg : SyncMessage} {out : List Output}

/-- Why, and to whom, a step sends a sync message for the node. -/
inductive SyncSent (s : State) (e : Event) (recipients : Finset SocketId) (n : NodeId) :
    SyncMessage → Prop
  | answer (socket : SocketId) (sv : StateVector) (r : DocRef)
      (he : e = .yjsSync socket n (.syncStep1 sv)) (hdocs : s.manager.mem.docs n = some r)
      (hrecipients : recipients = {socket} ∩ s.connected) :
      SyncSent s e recipients n (.syncStep2 (encodeStateAsUpdate (s.manager.mem.heap r).doc sv))
  | relay (socket : SocketId) (u : YDoc) (r : DocRef) (he : e = .yjsSync socket n (.update u))
      (hdocs : s.manager.mem.docs n = some r)
      (hread : (s.data socket).yjsReadOnly n ≠ some true)
      (hrecipients : recipients = (s.inRoom (.yjsRoom n)).erase socket) :
      SyncSent s e recipients n (.update u)
  | asked (h : HandlerId) (sv : StateVector) (he : e = .resumeYjsJoin h) :
      SyncSent s e recipients n (.syncStep1 sv)
  | broadcast (u : YDoc) (he : e = .broadcastYjsUpdate n u ∨ ∃ t entry, e = .announce t ∧
        s.manager.queue.task t = some entry ∧ entry.key = n ∧ entry.payload.update = some u)
      (hrecipients : recipients = s.inRoom (.yjsRoom n)) :
      SyncSent s e recipients n (.update u)

/-- No sync message is among the outputs. -/
private def Silent (out : List Output) : Prop :=
  ∀ recipients n msg, .emit recipients (.yjsSync n msg) ∉ out

/-- Nothing is sent. -/
private theorem silent_nil : Silent [] := fun _ _ _ h => by cases h

/-- An acknowledgement is no update. -/
private theorem silent_ack (socket : SocketId) (reply : Ack) : Silent [.ack socket reply] :=
  fun _ _ _ h => by simp at h

/-- Neither is an event of another name. -/
private theorem silent_emit {event : ServerEvent} (recipients : Finset SocketId)
    (hevent : ∀ n msg, event ≠ .yjsSync n msg) : Silent [.emit recipients event] := by
  intro recipients' n msg h
  simp only [List.mem_singleton, Output.emit.injEq] at h
  exact hevent n msg h.2.symm

/-- `yjs:join` answers with an error, or waits for the document. -/
private theorem silent_loadYjsDoc (s : State) (socket : SocketId) (ws : WorkspaceId) (n : NodeId)
    (membership : Option Role) : Silent (s.loadYjsDoc socket ws n membership).2 := by
  cases membership with
  | none => exact silent_ack _ _
  | some role => exact silent_nil

/-- So does the handler in front of it, which may ask the API server first. -/
private theorem silent_handleYjsJoin (s : State) (socket : SocketId) (n : NodeId) :
    Silent (s.handleYjsJoin socket n).2 := by
  unfold State.handleYjsJoin
  split
  · split
    · exact silent_nil
    · exact silent_loadYjsDoc _ _ _ _ _
  · exact silent_ack _ _

/-- The answer about a membership lets a handler go on as far as its next await. -/
private theorem silent_membershipReply {h : HandlerId} {ok : Bool}
    (hs' : s.membershipReply h ok = some (s', out)) : Silent out := by
  unfold State.membershipReply at hs'
  split at hs'
  · split at hs'
    · rw [← show _ = out from congrArg Prod.snd (Option.some.inj hs')]
      unfold State.continueJoin
      split
      · exact silent_ack _ _
      · exact silent_nil
    · cases hs'
      exact silent_nil
  · split at hs'
    · rw [← show _ = out from congrArg Prod.snd (Option.some.inj hs')]
      exact silent_loadYjsDoc _ _ _ _ _
    · cases hs'
      exact silent_nil
  · cases hs'

/-- What Redis answers is passed on as presence or awareness. -/
private theorem silent_redisReply {reply : DocManager.Reply}
    (hs' : s.redisReply reply = some (s', out)) : Silent out := by
  unfold State.redisReply at hs'
  split at hs'
  · cases hs'
  · next h rest _ =>
      dsimp only at hs'
      split at hs'
      · cases hs'
        exact silent_nil
      · next socket pending _ =>
          cases pending with
          | joinGetCachedAwareness ws member =>
              cases hs'
              intro recipients n msg hmem
              obtain ⟨data, -, heq⟩ := List.mem_map.mp hmem
              cases heq
          | joinListPresence ws =>
              cases reply with
              | ok =>
                  cases hs'
                  intro recipients n msg hmem
                  simp [State.emitToRoom] at hmem
              | _ =>
                  cases hs'
                  exact silent_nil
          | leaveListPresence ws =>
              cases reply with
              | ok =>
                  cases hs'
                  exact silent_emit _ fun n msg => by simp
              | _ =>
                  cases hs'
                  exact silent_nil
          | cacheAwareness ws data =>
              cases hs'
              exact silent_emit _ fun n msg => by simp
          | _ => cases reply <;> cases hs' <;> exact silent_nil

/-- `yjs:sync` sends the answer to its sender and the update to the others of the room. -/
private theorem sync_of_handleYjsSync {socket : SocketId} {m : NodeId} {data : SyncMessage}
    (h : .emit recipients (.yjsSync n msg) ∈ (s.handleYjsSync socket m data).2) :
    SyncSent s (.yjsSync socket m data) recipients n msg := by
  unfold State.handleYjsSync at h
  cases hr : s.manager.mem.docs m with
  | none => simp [hr] at h
  | some r =>
      cases data with
      | syncStep1 sv =>
          have hmem : Output.emit recipients (.yjsSync n msg) ∈ [s.emit socket (.yjsSync m
              (.syncStep2 (encodeStateAsUpdate (s.manager.mem.heap r).doc sv)))] := by
            simpa [hr, readSyncMessage] using h
          obtain ⟨rfl, hevent⟩ := Output.emit.inj (List.mem_singleton.mp hmem)
          cases hevent
          exact .answer socket sv r rfl hr rfl
      | syncStep2 u => simp [hr, readSyncMessage] at h
      | update u =>
          by_cases hread : (s.data socket).yjsReadOnly m = some true
          · simp [hr, readSyncMessage, hread] at h
          · have hmem : Output.emit recipients (.yjsSync n msg) ∈
                [s.emitToOthers socket (.yjsRoom m) (.yjsSync m (.update u))] := by
              simpa [hr, readSyncMessage, hread] using h
            obtain ⟨rfl, hevent⟩ := Output.emit.inj (List.mem_singleton.mp hmem)
            cases hevent
            exact .relay socket u r rfl hr hread rfl

/-- A join that has its document sends the first step of the protocol. -/
private theorem sync_of_resumeYjsJoin {h : HandlerId} (hs' : s.resumeYjsJoin h = some (s', out))
    (hmem : .emit recipients (.yjsSync n msg) ∈ out) :
    SyncSent s (.resumeYjsJoin h) recipients n msg := by
  unfold State.resumeYjsJoin at hs'
  split at hs'
  · split at hs'
    · cases hs'
    · dsimp only at hs'
      split at hs'
      · cases hs'
      · cases hs'
        cases hmem
      · rw [← show _ = out from congrArg Prod.snd (Option.some.inj hs')] at hmem
        simp only [State.finishYjsJoin, State.emit, List.mem_cons, Output.emit.injEq,
          ServerEvent.yjsSync.injEq, reduceCtorEq, List.not_mem_nil, or_false] at hmem
        obtain ⟨-, -, rfl⟩ := hmem
        exact .asked h _ rfl
  · cases hs'

/-- An append sends its update to the room. -/
private theorem sync_of_announce {t : TaskId} (hs' : s.announce t = some (s', out))
    (hmem : .emit recipients (.yjsSync n msg) ∈ out) :
    SyncSent s (.announce t) recipients n msg := by
  unfold State.announce at hs'
  split at hs'
  · cases hs'
  · split at hs'
    · cases hs'
    · next entry htask =>
        split at hs'
        · next p u hphase hupdate =>
            cases hs'
            obtain ⟨rfl, hevent⟩ := Output.emit.inj (List.mem_singleton.mp hmem)
            cases hevent
            exact .broadcast u (Or.inr ⟨t, entry, rfl, htask, rfl, hupdate⟩) rfl
        · cases hs'

/-- **Every sync message has its reason.** -/
theorem sync_of_outputs (h : .emit recipients (.yjsSync n msg) ∈ outputs lex verify s e) :
    SyncSent s e recipients n msg := by
  obtain ⟨s', out, hs', hmem⟩ : ∃ s' out, handle lex verify s e = some (s', out) ∧
      .emit recipients (.yjsSync n msg) ∈ out := by
    unfold outputs at h
    cases hhandle : handle lex verify s e with
    | none => simp [hhandle] at h
    | some p => exact ⟨p.1, p.2, rfl, by simpa [hhandle] using h⟩
  -- handlers that send no sync message
  have hsilent : Silent out → SyncSent s e recipients n msg := fun hout => absurd hmem (hout _ _ _)
  cases e with
  | yjsSync socket m data =>
      rw [handle] at hs'
      split at hs'
      · rw [← show _ = out from congrArg Prod.snd (Option.some.inj hs')] at hmem
        exact sync_of_handleYjsSync hmem
      · cases hs'
  | resumeYjsJoin h => exact sync_of_resumeYjsJoin hs' hmem
  | announce t => exact sync_of_announce hs' hmem
  | broadcastYjsUpdate m u =>
      cases hs'
      obtain ⟨rfl, hevent⟩ := Output.emit.inj (List.mem_singleton.mp hmem)
      cases hevent
      exact .broadcast u (Or.inl rfl) rfl
  | joinWorkspace socket ws userName color profile =>
      apply hsilent
      rw [handle] at hs'
      split at hs'
      · unfold State.handleJoin at hs'
        split at hs' <;> cases hs'
        · exact silent_ack _ _
        · exact silent_nil
      · cases hs'
  | yjsJoin socket m =>
      apply hsilent
      rw [handle] at hs'
      split at hs'
      · rw [← show _ = out from congrArg Prod.snd (Option.some.inj hs')]
        exact silent_handleYjsJoin s socket m
      · cases hs'
  | membershipReply h ok => exact hsilent (silent_membershipReply hs')
  | redisReply reply => exact hsilent (silent_redisReply hs')
  | broadcast event =>
      cases hs'
      exact hsilent (silent_emit _ fun n msg => by simp)
  | manager e =>
      apply hsilent
      rw [handle] at hs'
      split at hs'
      · obtain ⟨m, -, heq⟩ := Option.map_eq_some_iff.mp hs'
        cases heq
        exact silent_nil
      · cases hs'
  | nodePositionLive socket payload =>
      apply hsilent
      rw [handle] at hs'
      split at hs' <;> cases hs'
      exact silent_emit _ fun n msg => by simp
  | yjsAwareness socket m data =>
      apply hsilent
      rw [handle] at hs'
      split at hs' <;> cases hs'
      exact silent_emit _ fun n msg => by simp
  | disconnect socket =>
      apply hsilent
      rw [handle] at hs'
      split at hs' <;> cases hs'
      exact silent_nil
  | yjsLeave socket m =>
      apply hsilent
      rw [handle] at hs'
      split at hs' <;> cases hs'
      exact silent_nil
  | wsAwareness socket ws data =>
      apply hsilent
      rw [handle] at hs'
      split at hs' <;> cases hs'
      exact silent_nil
  | _ =>
      cases hs'
      exact hsilent silent_nil

end AideepWebsocket.Gateway
