import AideepWebsocket.Gateway.Cases
import AideepWebsocket.Gateway.Network
import AideepWebsocket.Gateway.Refinement
import AideepWebsocket.Gateway.Relay

/-!
# Clients and server converge

The proof follows one change of a managed document.  By `holds_of_step` it has
come with a sync message or with an append, so the client holds it, or it is in a
message to the client, or in the update of an append whose caller has yet to
broadcast it (`Network.Supplied`).  This is invariant as long as the server relays
what it absorbs and no append fails after its edit, and once nothing is on its way
only the first case is left.

* `holds_of_step`, `carries_of_step`, `announce_step` — what a step of the gateway
  does to documents and updates;
* `NetworkInv` — the invariant, with one lemma for the clients (`of_client`) and
  one for the server (`serve`);
* `relayed_iff_and_converged` — the result, over runs.
-/

namespace AideepWebsocket.Gateway

open Library
open DocManager (DocRef TaskId ManagerInv)

variable {lex : Lexical} {verify : String → Option UserId} {s s' : State} {e : Event}

/-! ### One step of the server -/

theorem manager_step {e : DocManager.Event} (h : step lex verify s (.manager e) = some s') :
    internal e = true ∧ DocManager.step lex s.manager e = some s'.manager := by
  have h := step_eq_some.mp h
  rw [handle] at h
  split at h
  · next hinternal =>
      obtain ⟨m, hm, heq⟩ := Option.map_eq_some_iff.mp h
      rw [← (Prod.mk.inj heq).1]
      exact ⟨hinternal, hm⟩
  · cases h

theorem managerInv_of_step (hM : ManagerInv s.manager) (h : step lex verify s e = some s') :
    ManagerInv s'.manager :=
  hM.exec (exec_manager h)

/-- **Where a change comes from**, seen from the gateway. -/
theorem holds_of_step (hM : ManagerInv s.manager) (h : step lex verify s e = some s')
    {n : NodeId} {r : DocRef} (hdocs : s.manager.mem.docs n = some r)
    (hdocs' : s'.manager.mem.docs n = some r) {x : Change}
    (hx : (s'.manager.mem.heap r).doc.Holds x) :
    (s.manager.mem.heap r).doc.Holds x ∨
      (∃ socket data, e = .yjsSync socket n data ∧ data.changes.Holds x) ∨
      ∃ t clientId u, e = .manager (.resumeAppend t clientId) ∧ s'.manager.Edited t n u ∧
        u.Holds x := by
  by_cases hmanager : ∃ e', e = .manager e'
  · obtain ⟨e', rfl⟩ := hmanager
    obtain ⟨hinternal, hstep⟩ := manager_step h
    rcases DocManager.holds_of_step hM.inv hM.owned hstep hdocs hx with
      hold | ⟨u, rfl, -⟩ | ⟨t, clientId, u, rfl, hu⟩
    · exact Or.inl hold
    · cases hinternal
    · exact Or.inr (Or.inr ⟨t, clientId, u, rfl, hu⟩)
  · have hes : ∀ t clientId, .resumeAppend t clientId ∉ s.managerEvents e := by
      intro t clientId hmem
      cases managerCall_of_mem hmem with
      | manager _ he => exact hmanager ⟨_, he⟩
    rcases DocManager.holds_of_exec hM (exec_manager h) hes hdocs hdocs' hx with
      hold | ⟨u, hmem, hu⟩
    · exact Or.inl hold
    · cases managerCall_of_mem hmem with
      | applyToDoc socket n data he => exact Or.inr (Or.inl ⟨socket, data, he, hu⟩)
      | manager _ he => exact absurd ⟨_, he⟩ hmanager

/-- An update stays with its task as long as no append fails after its edit. -/
theorem carries_of_step (hM : ManagerInv s.manager) (h : step lex verify s e = some s')
    (hrestart : e ≠ .restart)
    (hspared : ∀ t, e = .manager (.continueFlush t) → s'.manager.Spared t) {t : TaskId}
    {n : NodeId} {u : YDoc} (hc : s.manager.Carries t n u) : s'.manager.Carries t n u := by
  by_cases hmanager : ∃ e', e = .manager e'
  · obtain ⟨e', rfl⟩ := hmanager
    obtain ⟨hinternal, hstep⟩ := manager_step h
    rcases hc.step hM.unedited hstep with hc' | ⟨rfl, hnot⟩ | rfl
    · exact hc'
    · exact absurd (hspared t rfl) hnot
    · cases hinternal
  · refine hc.exec hM (exec_manager h) ?_ ?_
    · intro t hmem
      cases managerCall_of_mem hmem with
      | manager _ he => exact hmanager ⟨_, he⟩
    · intro hmem
      cases managerCall_of_mem hmem with
      | manager _ he => exact hmanager ⟨_, he⟩
      | restart he => exact hrestart he

/-- What is announced is the update of an append that has succeeded, and the room
is sent it. -/
theorem announce_step {t : TaskId} (h : step lex verify s (.announce t) = some s') :
    s' = { s with announced := insert t s.announced } ∧ s.manager.Settled t ∧
      ∀ n u, s.manager.Edited t n u →
        .emit (s.inRoom (.yjsRoom n)) (.yjsSync n (.update u)) ∈
          outputs lex verify s (.announce t) := by
  have h := step_eq_some.mp h
  rw [handle, State.announce] at h
  split at h
  · cases h
  · split at h
    · cases h
    · next entry htask =>
        split at h
        · next p u hphase hupdate =>
            obtain ⟨hs', hout⟩ := Prod.mk.inj (Option.some.inj h)
            refine ⟨hs'.symm, ⟨entry, htask, by simp [DocManager.Task.stage, hphase,
              DocManager.Phase.stage]⟩, ?_⟩
            rintro n u' ⟨entry', htask', rfl, hupdate'⟩
            rw [htask] at htask'
            cases htask'
            rw [hupdate] at hupdate'
            cases hupdate'
            rw [← hout]
            exact List.mem_singleton_self _
        · cases h

private theorem announced_membershipReply {h : HandlerId} {ok : Bool} {out : List Output}
    (hs' : s.membershipReply h ok = some (s', out)) : s'.announced = s.announced := by
  rcases s.membershipReply_cases hs' with
    ⟨socket, ws, member, -, ⟨-, rfl, -⟩ | ⟨role, -, -, -, rfl⟩⟩ |
    ⟨socket, userId, ws, n, -, ⟨-, rfl, -⟩ | ⟨-, -, rfl, -⟩ | ⟨role, -, -, -, rfl⟩⟩ <;> rfl

private theorem announced_redisReply {reply : DocManager.Reply} {out : List Output}
    (hs' : s.redisReply reply = some (s', out)) : s'.announced = s.announced := by
  obtain ⟨h, rest, -, ⟨rfl, -⟩ | ⟨socket, pending, -, -, hcase⟩⟩ := s.redisReply_cases hs'
  · rfl
  · rcases hcase with ⟨next, -, rfl⟩ | ⟨-, -, rfl, _, _, hclean⟩ | ⟨-, rfl⟩
    · rfl
    · rw [hclean]
      rfl
    · rfl

/-- Only the caller of an append announces. -/
theorem announced_of_step (h : step lex verify s e = some s') :
    s'.announced = s.announced ∨
      ∃ t, e = .announce t ∧ s'.announced = insert t s.announced := by
  by_cases hannounce : ∃ t, e = .announce t
  · obtain ⟨t, rfl⟩ := hannounce
    rw [(announce_step h).1]
    exact Or.inr ⟨t, rfl, rfl⟩
  left
  obtain ⟨out, h⟩ : ∃ out, handle lex verify s e = some (s', out) := ⟨_, step_eq_some.mp h⟩
  cases e with
  | announce t => exact absurd ⟨t, rfl⟩ hannounce
  | membershipReply i ok => exact announced_membershipReply h
  | redisReply reply => exact announced_redisReply h
  | connect token =>
      cases h
      unfold State.handleConnection
      split <;> rfl
  | disconnect socket =>
      rw [handle] at h
      split at h
      · cases h
        rcases s.handleDisconnect_cases socket with ⟨ws, userId, -, -, heq⟩ | ⟨-, heq, _, _, hclean⟩
        · rw [heq]
          rfl
        · rw [heq, hclean]
      · cases h
  | joinWorkspace socket ws userName color profile =>
      rw [handle] at h
      split at h
      · unfold State.handleJoin at h
        split at h <;> cases h <;> rfl
      · cases h
  | yjsJoin socket n =>
      rw [handle] at h
      split at h
      · rw [← show _ = s' from congrArg Prod.fst (Option.some.inj h)]
        rcases s.handleYjsJoin_cases socket n with
          ⟨text, heq⟩ | ⟨userId, ws, -, -, ⟨-, heq⟩ | ⟨role, -, heq⟩⟩ <;> rw [heq] <;> rfl
      · cases h
  | yjsSync socket n data =>
      rw [handle] at h
      split at h
      · rw [← show _ = s' from congrArg Prod.fst (Option.some.inj h)]
        unfold State.handleYjsSync
        split
        · rfl
        · dsimp only
          split
          · split <;> rfl
          · rfl
      · cases h
  | yjsLeave socket n =>
      rw [handle] at h
      split at h
      · cases h
        unfold State.handleYjsLeave
        dsimp only
        split <;> rfl
      · cases h
  | wsAwareness socket ws data =>
      rw [handle] at h
      split at h
      · cases h
        unfold State.handleWsAwareness
        split <;> rfl
      · cases h
  | resumeYjsJoin i =>
      obtain ⟨socket, ws, role, n, get, c, -, -, ⟨failure, -, rfl, -⟩ | ⟨r, -, heq⟩⟩ :=
        s.resumeYjsJoin_cases h
      · rfl
      · cases heq
        rfl
  | broadcast event =>
      cases h
      split <;> rfl
  | manager x =>
      rw [handle] at h
      split at h
      · obtain ⟨m, -, heq⟩ := Option.map_eq_some_iff.mp h
        cases heq
        rfl
      · cases h
  | nodePositionLive socket payload =>
      rw [handle] at h
      split at h <;> cases h
      rfl
  | yjsAwareness socket n data =>
      rw [handle] at h
      split at h <;> cases h
      rfl
  | _ =>
      cases h
      rfl

/-- A SyncStep1 for a managed document is answered from it. -/
private theorem answer_of_syncStep1 {socket : SocketId} {n : NodeId} {sv : StateVector}
    {r : DocRef} (h : step lex verify s (.yjsSync socket n (.syncStep1 sv)) = some s')
    (hr : s.manager.mem.docs n = some r) :
    .emit ({socket} ∩ s.connected) (.yjsSync n (.syncStep2
        (encodeStateAsUpdate (s.manager.mem.heap r).doc sv))) ∈
      outputs lex verify s (.yjsSync socket n (.syncStep1 sv)) := by
  have hout := handleYjsSync_of_step h
  rw [State.handleYjsSync, hr] at hout
  rw [← (Prod.mk.inj hout).2]
  exact List.mem_singleton_self _

/-- Only a connected socket sends messages. -/
private theorem connected_of_yjsSync {socket : SocketId} {n : NodeId} {data : SyncMessage}
    (h : step lex verify s (.yjsSync socket n data) = some s') : socket ∈ s.connected := by
  have h := step_eq_some.mp h
  rw [handle] at h
  split at h
  · assumption
  · cases h

theorem mem_received {socket : SocketId} {n : NodeId} {data : SyncMessage} {out : List Output}
    {recipients : Finset SocketId} (h : .emit recipients (.yjsSync n data) ∈ out)
    (hsocket : socket ∈ recipients) : (n, data) ∈ received socket out := by
  refine List.mem_filterMap.mpr ⟨_, h, ?_⟩
  show (if socket ∈ recipients then some (n, data) else none) = some (n, data)
  rw [if_pos hsocket]

namespace Network

variable {net net' : Network}

/-! ### The invariant -/

/-- The change is in the replica of the client, or on its way to it, or in the
update of an append that is still to be broadcast. -/
def Supplied (net : Network) (socket : SocketId) (nodeId : NodeId) (x : Change) : Prop :=
  (net.replicas socket nodeId).Holds x ∨
    (∃ data, (nodeId, data) ∈ net.toClient socket ∧ data.changes.Holds x) ∨
    ∃ t u, net.server.manager.Carries t nodeId u ∧ t ∉ net.server.announced ∧ u.Holds x

/-- **Supply.**  What a message to the server says was true of a replica that has
only grown since; a client whose SyncStep1 was answered is in the room, and is
supplied with all of the document that it was answered from. -/
structure NetworkInv (net : Network) : Prop where
  manager : ManagerInv net.server.manager
  announced : ∀ t ∈ net.server.announced, net.server.manager.Settled t
  honest : ∀ k n data, (n, data) ∈ net.toServer k →
    ∃ replica ≤ net.replicas k n, Honest replica data
  room : ∀ k n r, net.answered k n = some r →
    k ∈ net.server.inRoom (.yjsRoom n) ∧ r < net.server.manager.mem.nextRef
  supplied : ∀ k n r, net.answered k n = some r → net.server.manager.mem.docs n = some r →
    ∀ x, (net.server.manager.mem.heap r).doc.Holds x → net.Supplied k n x

theorem networkInv_init (nodes : NodeId → Option DocManager.NodeRow)
    (memberships : UserId → WorkspaceId → Option Role) :
    NetworkInv (init nodes memberships) where
  manager := DocManager.managerInv_init nodes
  announced t ht := absurd ht (Finset.notMem_empty t)
  honest k n data hmem := by cases hmem
  room k n r hr := by cases hr
  supplied k n r hr := by cases hr

theorem NetworkInv.converged (hN : NetworkInv net) : net.Converged := by
  rintro k n r hdocs hanswered ⟨hchannel, happends⟩
  rw [YDoc.le_iff_holds]
  intro x hx
  rcases hN.supplied k n r hanswered hdocs x hx with hreplica | ⟨data, hmem, -⟩ | ⟨t, u, hc, ht, -⟩
  · exact hreplica
  · exact absurd hmem (hchannel data)
  · exact absurd (happends t u hc) ht

/-! ### The clients -/

theorem le_merge (net : Network) (socket : SocketId) (nodeId : NodeId) (u : YDoc) (k : SocketId)
    (n : NodeId) : net.replicas k n ≤ (net.merge socket nodeId u).replicas k n := by
  unfold merge
  by_cases hk : k = socket
  · subst hk
    by_cases hn : n = nodeId
    · subst hn
      simp [applyUpdate]
    · simp [Function.update_of_ne hn]
  · simp [Function.update_of_ne hk]

theorem merge_self (net : Network) (socket : SocketId) (nodeId : NodeId) (u : YDoc) :
    (net.merge socket nodeId u).replicas socket nodeId =
      applyUpdate (net.replicas socket nodeId) u := by
  simp [merge]

theorem mem_push {net : Network} {socket k : SocketId} {nodeId n : NodeId}
    {data data' : SyncMessage} (h : (n, data') ∈ (net.push socket nodeId data).toServer k) :
    (n, data') ∈ net.toServer k ∨ k = socket ∧ n = nodeId ∧ data' = data := by
  change (n, data') ∈ Function.update net.toServer socket
    (net.toServer socket ++ [(nodeId, data)]) k at h
  by_cases hk : k = socket
  · subst hk
    rw [Function.update_self, List.mem_append, List.mem_singleton] at h
    refine h.imp_right fun heq => ?_
    cases heq
    exact ⟨rfl, rfl, rfl⟩
  · rw [Function.update_of_ne hk] at h
    exact Or.inl h

/-- A message stays in its channel, or is the one that arrives. -/
theorem mem_arrive {channel : SocketId → Channel} {socket k : SocketId} {i : ℕ}
    {m m' : NodeId × SyncMessage} (hm : (channel socket)[i]? = some m) (h : m' ∈ channel k) :
    m' ∈ Function.update channel socket ((channel socket).eraseIdx i) k ∨
      k = socket ∧ m' = m := by
  by_cases hk : k = socket
  · subst hk
    rw [Function.update_self, List.mem_eraseIdx_iff_getElem?]
    obtain ⟨j, hj⟩ := List.mem_iff_getElem?.mp h
    by_cases hij : j = i
    · subst hij
      rw [hm] at hj
      exact Or.inr ⟨rfl, (Option.some.inj hj).symm⟩
    · exact Or.inl ⟨j, hij, hj⟩
  · rw [Function.update_of_ne hk]
    exact Or.inl h

theorem mem_of_mem_arrive {channel : SocketId → Channel} {socket k : SocketId} {i : ℕ}
    {m : NodeId × SyncMessage}
    (h : m ∈ Function.update channel socket ((channel socket).eraseIdx i) k) : m ∈ channel k := by
  by_cases hk : k = socket
  · subst hk
    rw [Function.update_self] at h
    exact List.mem_of_mem_eraseIdx h
  · rwa [Function.update_of_ne hk] at h

/-- What is honest of a replica is true of what the replica was. -/
private theorem honest_of_le {replica replica' : YDoc} {data : SyncMessage}
    (h : ∃ d ≤ replica, Honest d data) (hle : replica ≤ replica') :
    ∃ d ≤ replica', Honest d data :=
  h.imp fun _ hd => ⟨hd.1.trans hle, hd.2⟩

/-- **Client steps**: the replicas grow, the messages to the server are honest,
and a message leaves the channel to a client only into its replica. -/
theorem NetworkInv.of_client (hN : NetworkInv net) (hserver : net'.server = net.server)
    (hanswered : net'.answered = net.answered)
    (hgrow : ∀ k n, net.replicas k n ≤ net'.replicas k n)
    (hhonest : ∀ k n data, (n, data) ∈ net'.toServer k →
      (n, data) ∈ net.toServer k ∨ Honest (net'.replicas k n) data)
    (hclient : ∀ k n data, (n, data) ∈ net.toClient k →
      (n, data) ∈ net'.toClient k ∨ data.changes ≤ net'.replicas k n) : NetworkInv net' where
  manager := by
    rw [hserver]
    exact hN.manager
  announced := by
    rw [hserver]
    exact hN.announced
  honest k n data hmem := by
    rcases hhonest k n data hmem with hmem | hhonest
    · exact honest_of_le (hN.honest k n data hmem) (hgrow k n)
    · exact ⟨_, le_rfl, hhonest⟩
  room := by
    rw [hserver, hanswered]
    exact hN.room
  supplied k n r hr hdocs x hx := by
    rw [hserver] at hdocs hx
    rw [hanswered] at hr
    rcases hN.supplied k n r hr hdocs x hx with hreplica | ⟨data, hmem, hdata⟩ | happend
    · exact Or.inl (YDoc.le_iff_holds.mp (hgrow k n) x hreplica)
    · rcases hclient k n data hmem with hmem | hle
      · exact Or.inr (Or.inl ⟨data, hmem, hdata⟩)
      · exact Or.inl (YDoc.le_iff_holds.mp hle x hdata)
    · rw [← hserver] at happend
      exact Or.inr (Or.inr happend)

private theorem networkInv_receive (hN : NetworkInv net) {socket : SocketId} {i : ℕ}
    (h : net.step lex verify (.receive socket i) = some net') : NetworkInv net' := by
  simp only [step] at h
  split at h
  · cases h
  · next nodeId data hm =>
      -- what arrives is applied before anything is answered
      have harrive : NetworkInv ({ net with
          toClient := Function.update net.toClient socket
            ((net.toClient socket).eraseIdx i) }.merge socket nodeId data.changes) := by
        refine hN.of_client rfl rfl (le_merge _ socket nodeId data.changes)
          (fun k n m hmem => Or.inl hmem) fun k n m hmem => ?_
        refine (mem_arrive hm hmem).imp_right ?_
        rintro ⟨rfl, heq⟩
        cases heq
        rw [merge_self]
        exact le_sup_right
      split at h
      · cases h
        exact harrive
      · next reply hreply =>
          cases h
          refine harrive.of_client rfl rfl (fun _ _ => le_rfl) (fun k n m hmem => ?_)
            fun k n m hmem => Or.inl hmem
          refine (mem_push hmem).imp_right ?_
          rintro ⟨rfl, rfl, rfl⟩
          cases data with
          | syncStep1 sv =>
              cases hreply
              refine (encodeStateAsUpdate_le _ _).trans ?_
              exact le_merge { net with
                toClient := Function.update net.toClient k ((net.toClient k).eraseIdx i) }
                k n (SyncMessage.changes (.syncStep1 sv)) k n
          | _ => cases hreply

/-! ### The server -/

private theorem serve_eq (h : net.serve lex verify e = some net') :
    ∃ s', Gateway.step lex verify net.server e = some s' ∧
      net' = net.after e s' (outputs lex verify net.server e) := by
  obtain ⟨⟨s', out⟩, hhandle, rfl⟩ := Option.map_eq_some_iff.mp h
  have hstep : Gateway.step lex verify net.server e = some s' := by
    unfold Gateway.step
    rw [hhandle]
    rfl
  have hout := step_eq_some.mp hstep
  rw [hhandle] at hout
  obtain ⟨-, rfl⟩ := Prod.mk.inj (Option.some.inj hout)
  exact ⟨s', hstep, rfl⟩

/-- A client that counts as answered is in the room; it is answered now, or has
been before. -/
private theorem answered_after {out : List Output} {k : SocketId} {n : NodeId} {r : DocRef}
    (h : (net.after e s' out).answered k n = some r) : k ∈ s'.inRoom (.yjsRoom n) ∧
      ((∃ sv, e = .yjsSync k n (.syncStep1 sv)) ∧ net.server.manager.mem.docs n = some r ∨
        net.answered k n = some r) := by
  unfold after at h
  dsimp only at h
  split at h
  · next hroom =>
      refine ⟨hroom, ?_⟩
      split at h
      · next hasks =>
          refine Or.inl ⟨?_, h⟩
          unfold Event.asks at hasks
          split at hasks
          · next sv =>
              obtain ⟨rfl, rfl⟩ := of_decide_eq_true hasks
              exact ⟨sv, rfl⟩
          · cases hasks
      · exact Or.inr h
  · cases h

/-- What the server sends to a client supplies it. -/
private theorem Supplied.of_sent {out : List Output} {recipients : Finset SocketId} {n : NodeId}
    {data : SyncMessage} (hout : .emit recipients (.yjsSync n data) ∈ out) {k : SocketId}
    (hk : k ∈ recipients) {x : Change} (hx : data.changes.Holds x) :
    (net.after e s' out).Supplied k n x :=
  Or.inr (Or.inl ⟨data, List.mem_append_right _ (mem_received hout hk), hx⟩)

/-- What supplies a client before a step of the server supplies it after. -/
private theorem Supplied.after {k : SocketId} {n : NodeId} {x : Change}
    (hx : net.Supplied k n x) (hM : ManagerInv net.server.manager)
    (hstep : Gateway.step lex verify net.server e = some s')
    (hk : k ∈ net.server.inRoom (.yjsRoom n)) (hrestart : e ≠ .restart)
    (hspared : ∀ t, e = .manager (.continueFlush t) → s'.manager.Spared t) :
    (net.after e s' (outputs lex verify net.server e)).Supplied k n x := by
  rcases hx with hreplica | ⟨data, hmem, hdata⟩ | ⟨t, u, hc, ht, hu⟩
  · exact Or.inl hreplica
  · exact Or.inr (Or.inl ⟨data, List.mem_append_left _ hmem, hdata⟩)
  · by_cases hannounce : e = .announce t
    · -- the update is broadcast to the room
      subst hannounce
      obtain ⟨entry, htask, hkey, hupdate, -⟩ := hc
      exact .of_sent ((announce_step hstep).2.2 n u ⟨entry, htask, hkey, hupdate⟩) hk hu
    · refine Or.inr (Or.inr ⟨t, u, carries_of_step hM hstep hrestart hspared hc, ?_, hu⟩)
      show t ∉ s'.announced
      rcases announced_of_step hstep with hsame | ⟨t', rfl, hinsert⟩
      · rwa [hsame]
      · rw [hinsert, Finset.mem_insert, not_or]
        exact ⟨fun heq => hannounce (by rw [heq]), ht⟩

/-- The answer to a SyncStep1 holds what the replica does not. -/
private theorem supplied_of_answer {k : SocketId} {n : NodeId} {sv : StateVector} {r : DocRef}
    (hstep : Gateway.step lex verify net.server (.yjsSync k n (.syncStep1 sv)) = some s')
    (hhonest : ∃ replica ≤ net.replicas k n, Honest replica (.syncStep1 sv))
    (hdocs : net.server.manager.mem.docs n = some r) {x : Change}
    (hx : (net.server.manager.mem.heap r).doc.Holds x) :
    (net.after (.yjsSync k n (.syncStep1 sv)) s'
      (outputs lex verify net.server (.yjsSync k n (.syncStep1 sv)))).Supplied k n x := by
  obtain ⟨replica, hle, hsv⟩ := hhonest
  obtain rfl : sv = encodeStateVector replica := hsv
  have hk := Finset.mem_inter.mpr ⟨Finset.mem_singleton_self k, connected_of_yjsSync hstep⟩
  have hwhole := le_apply_encodeStateAsUpdate (net.server.manager.mem.heap r).doc replica
  rcases YDoc.holds_sup.mp (YDoc.le_iff_holds.mp hwhole x hx) with hheld | hsent
  · exact Or.inl (YDoc.le_iff_holds.mp hle x hheld)
  · exact .of_sent (answer_of_syncStep1 hstep hdocs) hk hsent

/-- An Update is relayed to the others in the room, and its sender holds it. -/
private theorem supplied_of_update {k socket : SocketId} {n : NodeId} {u : YDoc} {r : DocRef}
    (hstep : Gateway.step lex verify net.server (.yjsSync socket n (.update u)) = some s')
    (hhonest : ∃ replica ≤ net.replicas socket n, Honest replica (.update u))
    (hdocs : net.server.manager.mem.docs n = some r)
    (hread : (net.server.data socket).yjsReadOnly n ≠ some true)
    (hk : k ∈ net.server.inRoom (.yjsRoom n)) {x : Change} (hx : u.Holds x) :
    (net.after (.yjsSync socket n (.update u)) s'
      (outputs lex verify net.server (.yjsSync socket n (.update u)))).Supplied k n x := by
  by_cases hsocket : k = socket
  · subst hsocket
    obtain ⟨replica, hle, hown⟩ := hhonest
    exact Or.inl (YDoc.le_iff_holds.mp (le_trans hown hle) x hx)
  · exact .of_sent (relay_of_update hstep hdocs hread).1 (Finset.mem_erase.mpr ⟨hsocket, hk⟩) hx

/-- An append that has just edited the document has not been announced. -/
private theorem supplied_of_append (hN : NetworkInv net) {t : TaskId} {clientId : ClientId}
    (hstep : Gateway.step lex verify net.server (.manager (.resumeAppend t clientId)) = some s')
    {n : NodeId} {u : YDoc} (hc : s'.manager.Carries t n u) {k : SocketId} {x : Change}
    (hx : u.Holds x) (out : List Output) :
    (net.after (.manager (.resumeAppend t clientId)) s' out).Supplied k n x := by
  refine Or.inr (Or.inr ⟨t, u, hc, ?_, hx⟩)
  show t ∉ s'.announced
  rcases announced_of_step hstep with hsame | ⟨t', he, -⟩
  · rw [hsame]
    exact fun ht =>
      DocManager.not_settled_of_resumeAppend (manager_step hstep).2 (hN.announced t ht)
  · cases he

/-- What holds of the messages of clients: one that changes the document is an
Update of a socket that is not recorded as read-only. -/
def AccountedSync (s : State) (e : Event) : Prop :=
  ∀ k n data, e = .yjsSync k n data → ∀ r ∈ s.manager.mem.docs n,
    data.changes ≤ (s.manager.mem.heap r).doc ∨
      data.messageType = 2 ∧ (s.data k).yjsReadOnly n ≠ some true

/-- **Server steps** keep the clients supplied, if what is absorbed is relayed. -/
theorem NetworkInv.serve (hN : NetworkInv net) (h : net.serve lex verify e = some net')
    (hsync : AccountedSync net.server e)
    (hhonest : ∀ k n data, e = .yjsSync k n data →
      ∃ replica ≤ net.replicas k n, Honest replica data)
    (hspared : ∀ t, e = .manager (.continueFlush t) ∨
      (∃ clientId, e = .manager (.resumeAppend t clientId)) → net'.server.manager.Spared t) :
    NetworkInv net' := by
  obtain ⟨s', hstep, rfl⟩ := serve_eq h
  have hM := hN.manager
  have hexec := exec_manager hstep
  have hlt : ∀ {k n r}, ((∃ sv, e = .yjsSync k n (.syncStep1 sv)) ∧
      net.server.manager.mem.docs n = some r ∨ net.answered k n = some r) →
      r < net.server.manager.mem.nextRef := by
    rintro k n r (⟨-, hdocs⟩ | hr)
    · exact hM.inv.docs_lt hdocs
    · exact (hN.room k n r hr).2
  refine ⟨managerInv_of_step hM hstep, fun t ht => ?_, hN.honest, fun k n r hr => ?_,
    fun k n r hr hdocs' x hx => ?_⟩
  · rcases announced_of_step hstep with hsame | ⟨t', rfl, hinsert⟩
    · exact (hN.announced t (hsame ▸ ht)).exec hexec
    · rcases Finset.mem_insert.mp (hinsert ▸ ht) with rfl | ht
      · exact (announce_step hstep).2.1.exec hexec
      · exact (hN.announced t ht).exec hexec
  · obtain ⟨hroom, hcase⟩ := answered_after hr
    exact ⟨hroom, (hlt hcase).trans_le (DocManager.nextRef_le_of_exec hexec)⟩
  · obtain ⟨hroom, hcase⟩ := answered_after hr
    have hdocs := DocManager.docs_of_exec hexec (hlt hcase) hdocs'
    have hrestart : e ≠ .restart := by
      rintro rfl
      cases hstep
      exact absurd hroom (by simp [State.inRoom, State.restart])
    -- what the document held before the step
    have hold : (net.server.manager.mem.heap r).doc.Holds x →
        (net.after e s' (outputs lex verify net.server e)).Supplied k n x := by
      intro hbefore
      rcases hcase with ⟨⟨sv, rfl⟩, -⟩ | hr'
      · exact supplied_of_answer hstep (hhonest k n _ rfl) hdocs hbefore
      · exact (hN.supplied k n r hr' hdocs x hbefore).after hM hstep (hN.room k n r hr').1
          hrestart fun t ht => hspared t (Or.inl ht)
    rcases holds_of_step hM hstep hdocs hdocs' hx with
      hbefore | ⟨socket, data, rfl, hdata⟩ | ⟨t, clientId, u, rfl, hedited, hu⟩
    · exact hold hbefore
    · rcases hsync socket n data rfl r hdocs with hle | ⟨htype, hread⟩
      · exact hold (YDoc.le_iff_holds.mp hle x hdata)
      · obtain ⟨u, rfl⟩ : ∃ u, data = .update u := by
          cases data with
          | update u => exact ⟨u, rfl⟩
          | _ => cases htype
        have hr' : net.answered k n = some r := by
          rcases hcase with ⟨⟨sv, he⟩, -⟩ | hr'
          · cases he
          · exact hr'
        exact supplied_of_update hstep (hhonest socket n _ rfl) hdocs hread
          (hN.room k n r hr').1 hdata
    · exact supplied_of_append hN hstep
        (hedited.carries (hspared t (Or.inr ⟨clientId, rfl⟩))) hu _

/-- **Every accounted step** keeps the clients supplied. -/
theorem NetworkInv.step {e : NetworkEvent} (hN : NetworkInv net)
    (h : net.step lex verify e = some net') (haccounted : net.Accounted e net') :
    NetworkInv net' := by
  cases e with
  | edit socket nodeId change =>
      cases h
      exact hN.of_client rfl rfl (le_merge net socket nodeId change) (fun _ _ _ hm => Or.inl hm)
        fun _ _ _ hm => Or.inl hm
  | send socket nodeId data =>
      simp only [Network.step] at h
      split at h
      · next hhonest =>
          cases h
          refine hN.of_client rfl rfl (fun _ _ => le_rfl) (fun k n m hmem => ?_)
            fun _ _ _ hm => Or.inl hm
          refine (mem_push hmem).imp_right ?_
          rintro ⟨rfl, rfl, rfl⟩
          exact hhonest
      · cases h
  | receive socket i => exact networkInv_receive hN h
  | deliver socket i =>
      simp only [Network.step] at h
      split at h
      · cases h
      · next nodeId data hm =>
          have htaken : NetworkInv { net with
              toServer := Function.update net.toServer socket
                ((net.toServer socket).eraseIdx i) } :=
            hN.of_client rfl rfl (fun _ _ => le_rfl)
              (fun k n m hmem => Or.inl (mem_of_mem_arrive hmem)) fun _ _ _ hm => Or.inl hm
          refine htaken.serve h ?_ ?_ ?_
          · rintro k n m heq r hr
            cases heq
            exact haccounted _ hm r hr
          · rintro k n m heq
            cases heq
            exact hN.honest socket nodeId data (List.mem_of_getElem? hm)
          · rintro t (heq | ⟨clientId, heq⟩) <;> cases heq
  | server e =>
      simp only [Network.step] at h
      split at h
      · cases h
      · next hclient =>
          refine hN.serve h ?_ ?_ ?_
          · rintro k n data rfl
            exact absurd rfl hclient
          · rintro k n data rfl
            exact absurd rfl hclient
          · rintro t (rfl | ⟨clientId, rfl⟩)
            · exact haccounted
            · exact haccounted

end Network

/-! ### Runs -/

/-- **What the server absorbs it relays**: in a run of the gateway every change
that one who may write makes to a document is relayed and saved exactly when the
messages that bring something new are Updates.  And in a run of the server with
its clients whose changes are all accounted for, every client that has completed
its sync holds all of the document once nothing is on its way. -/
theorem relayed_iff_and_converged (lex : Lexical) (verify : String → Option UserId)
    (nodes : NodeId → Option DocManager.NodeRow)
    (memberships : UserId → WorkspaceId → Option Role) :
    (∀ es, Along (step lex verify) (Relayed lex verify) (State.init nodes memberships) es ↔
        Along (step lex verify) Covered (State.init nodes memberships) es) ∧
      ∀ es, Along (Network.step lex verify) Network.Accounted (Network.init nodes memberships) es →
        Along (Network.step lex verify) (fun _ _ net => net.Converged)
          (Network.init nodes memberships) es := by
  refine ⟨fun es => along_congr ?_, fun es haccounted => ?_⟩
  · intro s e s' hstep
    exact relayed_iff_covered hstep
  · refine along_of_invariant (I := Network.NetworkInv) ?_
      (Network.networkInv_init nodes memberships) haccounted
    intro net e net' hstep hN hguard
    have hN' := hN.step hstep hguard
    exact ⟨hN', hN'.converged⟩

/-- Users `8` and `9` are EDITORs of workspace `7`. -/
def twoEditors : UserId → WorkspaceId → Option Role :=
  members [(9, 7, .EDITOR), (8, 7, .EDITOR)]

/-- Both open the node; the second one asks for the document, and each answers the
SyncStep1 that the server sent it. -/
def bothOpen : List NetworkEvent :=
  (joinSession 0 "token of 9" 7 0 ++ openNode 0 1 ++ joinSession 1 "token of 8" 7 3 ++
      [Event.yjsJoin 1 1, .membershipReply 4 true, .resumeYjsJoin 5]).map NetworkEvent.server ++
    [.send 1 1 (.syncStep1 ∅), .deliver 1 0, .receive 1 1, .receive 1 0, .deliver 1 0,
      .receive 0 0]

/-- The first one, whose replica was empty when it answered, makes an insertion and
sends it. -/
def editorTypes : List NetworkEvent :=
  bothOpen ++ [.deliver 0 0, .edit 0 1 ⟨{(4, 0)}, ∅⟩, .send 0 1 (.update ⟨{(4, 0)}, ∅⟩),
    .deliver 0 0, .receive 1 0]

/-- The first one has made an insertion before it connected, and sends it as its
answer. -/
def editorReconnects : List NetworkEvent :=
  .edit 0 1 ⟨{(4, 0)}, ∅⟩ :: bothOpen ++ [.deliver 0 0]

theorem editorTypes_converged :
    Along (Network.step .plain plainToken) Network.Accounted
        (Network.init DocManager.oneNode twoEditors) editorTypes ∧
      Along (Network.step .plain plainToken) (fun _ _ net => net.Converged)
        (Network.init DocManager.oneNode twoEditors) editorTypes :=
  have haccounted : Along (Network.step .plain plainToken) Network.Accounted
      (Network.init DocManager.oneNode twoEditors) editorTypes := by decide +kernel
  ⟨haccounted, (relayed_iff_and_converged .plain plainToken DocManager.oneNode twoEditors).2
    editorTypes haccounted⟩

/-- The steps of the server in `editorReconnects`, for the first one alone. -/
def editorAnswers : List Event :=
  joinSession 0 "token of 9" 7 0 ++ openNode 0 1 ++ [.yjsSync 0 1 (.syncStep2 ⟨{(4, 0)}, ∅⟩)]

/-- The insertion is in the document, and is neither relayed nor saved; nothing is
on its way any more, and the second one does not have it. -/
theorem editorReconnects_not_converged :
    ¬ Along (step .plain plainToken) (Relayed .plain plainToken)
        (State.init DocManager.oneNode twoEditors) editorAnswers ∧
      ¬ Along (Network.step .plain plainToken) (fun _ _ net => net.Converged)
        (Network.init DocManager.oneNode twoEditors) editorReconnects := by
  constructor
  · intro h
    have hcovered : Along (step .plain plainToken) Covered
        (State.init DocManager.oneNode twoEditors) editorAnswers :=
      h.mono_step fun s e s' hstep => (relayed_iff_covered hstep).mp
    exact absurd hcovered (by decide +kernel)
  · intro h
    have hrun : (exec (Network.step .plain plainToken)
        (Network.init DocManager.oneNode twoEditors) editorReconnects).any (fun net =>
          (net.server.manager.mem.docs 1).any fun r => net.answered 1 1 = some r ∧
            net.toClient 1 = [] ∧ net.server.manager.queue.next = 0 ∧
            ¬ (net.server.manager.mem.heap r).doc ≤ net.replicas 1 1) = true := by
      decide +kernel
    obtain ⟨net, hnet, hrun⟩ := (Option.any_eq_true _ _).mp hrun
    obtain ⟨r, hdocs, hrun⟩ := (Option.any_eq_true _ _).mp hrun
    obtain ⟨hanswered, hchannel, hqueue, hmissing⟩ := of_decide_eq_true hrun
    have hconverged : net.Converged :=
      h.state (Network.networkInv_init DocManager.oneNode twoEditors).converged hnet
    refine hmissing (hconverged 1 1 r hdocs hanswered ⟨?_, ?_⟩)
    · intro data hmem
      rw [hchannel] at hmem
      cases hmem
    · -- no task has been submitted
      rintro t u ⟨entry, htask, -⟩
      have hlt := net.server.manager.queue.lt_next htask
      rw [hqueue] at hlt
      exact absurd hlt (Nat.not_lt_zero t)

end AideepWebsocket.Gateway
