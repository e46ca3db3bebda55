import AideepWebsocket.DocManager.Clients
import AideepWebsocket.Gateway.Refinement
import AideepWebsocket.Gateway.Cases

/-!
# Ghost clients

A socket is entered in two maps when its `yjs:join` resumes from `getOrCreateDoc`: in
the `clients` of the document and in `yjsRooms`.  `handleDisconnect` takes it out of
both, but only at its end, behind two awaits of Redis, and nothing looks whether the
socket of a resuming join is still there.  So a ghost is left when a join resumes after
the disconnect has been dealt with, and when the presence commands of the disconnect
fail.  `OnTime` excludes exactly these two, and then `along_noGhosts` holds.

* `RoomStep` — what a step does to `yjsRooms`, to the connections and to the suspended
  disconnects;
* `GhostInv` — the invariant: a client of a document is entered in `yjsRooms`, and a
  socket that is entered there is connected or about to be cleaned up.
-/

namespace AideepWebsocket.Gateway

open Library
open DocManager (Reply)

variable {lex : Lexical} {verify : String → Option UserId} {s s' : State} {e : Event}

/-- The handler is a `handleDisconnect`. -/
def Pending.leaves : Pending → Bool
  | .leaveRemovePresence _ _ | .leaveListPresence _ => true
  | _ => false

namespace State

/-- The disconnect of the socket has not been dealt with. -/
def Leaving (s : State) (k : SocketId) : Prop :=
  s.Suspended fun x => x.socket = k ∧ x.pending.leaves = true

instance (s : State) (k : SocketId) : Decidable (s.Leaving k) := by
  unfold Leaving
  infer_instance

/-- The nodes that the socket has joined. -/
def joined (s : State) (k : SocketId) : List NodeId := (s.yjsRooms k).getD []

/-- The socket that a `yjs:join` enters when it resumes. -/
def admits (s : State) (h : HandlerId) : Option SocketId :=
  match s.handlers h with
  | some ⟨socket, .yjsGetOrCreateDoc _ _ _ get⟩ =>
      match (s.manager.loader.gets get).bind fun c => s.manager.awaited c.await with
      | some (.ok _) => some socket
      | _ => none
  | _ => none

end State

/-- **No ghost clients**: a socket that has been disconnected, and whose handlers have
all ended, is in no document and has joined nothing. -/
def NoGhosts (s : State) : Prop :=
  ∀ k, k ∉ s.connected → s.Ended k → s.yjsRooms k = none ∧ ∀ n, k ∉ s.manager.mem.clients n

/-- A `yjs:join` resumes before the disconnect of its socket has been dealt with, and
a disconnect whose socket has joined a node does not fail. -/
def OnTime (s : State) (e : Event) (_ : State) : Prop :=
  match e with
  | .resumeYjsJoin h => ∀ k ∈ s.admits h, k ∈ s.connected ∨ s.Leaving k
  | .redisReply reply => reply ≠ .ok → ∀ h ∈ s.commands.head?, ∀ x ∈ s.handlers h,
      x.pending.leaves = true → s.yjsRooms x.socket = none
  | _ => True

instance (s : State) (e : Event) (s' : State) : Decidable (OnTime s e s') := by
  unfold OnTime
  split <;> infer_instance

/-! ### One step -/

/-- What a step can do to `yjsRooms`, to the connections and to the disconnects that
are suspended. -/
inductive RoomStep (s : State) (e : Event) (s' : State) : Prop
  | same (hrooms : s'.yjsRooms = s.yjsRooms) (hconnected : s.connected ⊆ s'.connected)
      (hleaving : ∀ j, s.Leaving j → s'.Leaving j)
  /-- A disconnect is suspended. -/
  | leaving (k : SocketId) (hrooms : s'.yjsRooms = s.yjsRooms)
      (hconnected : s'.connected = s.connected.erase k)
      (hleaving : ∀ j, s.Leaving j → s'.Leaving j) (hk : s'.Leaving k)
  /-- A disconnect has got to its end. -/
  | cleaned (k : SocketId) (hrooms : s'.yjsRooms = Function.update s.yjsRooms k none)
      (hconnected : s.connected.erase k ⊆ s'.connected)
      (hleaving : ∀ j, j ≠ k → s.Leaving j → s'.Leaving j)
      (hevents : s.managerEvents e = s.leaveEvents k)
  /-- A disconnect has failed at one of its awaits. -/
  | failed (k : SocketId) (i : HandlerId) (x : Handler) (reply : Reply)
      (he : e = .redisReply reply) (hreply : reply ≠ .ok) (hcommand : s.commands.head? = some i)
      (hhandler : s.handlers i = some x) (hsocket : x.socket = k)
      (hleaves : x.pending.leaves = true) (hrooms : s'.yjsRooms = s.yjsRooms)
      (hconnected : s'.connected = s.connected)
      (hleaving : ∀ j, j ≠ k → s.Leaving j → s'.Leaving j)
  | leftNode (k : SocketId) (n : NodeId) (hevents : s.managerEvents e = [.removeClient n k])
      (hrooms : ∀ j, j ≠ k → s'.yjsRooms j = s.yjsRooms j)
      (hself : ∀ m ∈ s.joined k, m ≠ n → m ∈ s'.joined k)
      (hnone : s.yjsRooms k = none → s'.yjsRooms k = none)
      (hconnected : s'.connected = s.connected) (hleaving : ∀ j, s.Leaving j → s'.Leaving j)
  | admitted (i : HandlerId) (k : SocketId) (n : NodeId) (he : e = .resumeYjsJoin i)
      (hadmits : s.admits i = some k)
      (hrooms : ∀ j, j ≠ k → s'.yjsRooms j = s.yjsRooms j)
      (hself : ∀ m, m ∈ s.joined k ∨ m = n → m ∈ s'.joined k)
      (hconnected : s'.connected = s.connected) (hleaving : ∀ j, s.Leaving j → s'.Leaving j)
  | restart (hrooms : ∀ k, s'.yjsRooms k = none) (hdocs : ∀ n, s'.manager.mem.docs n = none)

private theorem RoomStep.of_eq (hrooms : s'.yjsRooms = s.yjsRooms)
    (hconnected : s'.connected = s.connected) (hhandlers : s'.handlers = s.handlers)
    (hnext : s'.nextHandler = s.nextHandler) : RoomStep s e s' := by
  exact .same hrooms hconnected.ge fun _ => suspended_of_eq hhandlers hnext

/-- A handler that is no disconnect goes on or ends. -/
private theorem RoomStep.of_handler {h : HandlerId} {x : Handler} {y : Option Handler}
    (hhandler : s.handlers h = some x) (hleaves : x.pending.leaves = false)
    (hrooms : s'.yjsRooms = s.yjsRooms) (hconnected : s'.connected = s.connected)
    (hhandlers : s'.handlers = Function.update s.handlers h y)
    (hnext : s'.nextHandler = s.nextHandler) : RoomStep s e s' := by
  refine .same hrooms hconnected.ge fun j => suspended_of_update hhandlers hnext ?_
  rintro x' hx' ⟨-, hleaves'⟩
  rw [hhandler] at hx'
  obtain rfl := Option.some.inj hx'
  rw [hleaves] at hleaves'
  cases hleaves'

private theorem RoomStep.of_suspend {y : Option Handler} (hrooms : s'.yjsRooms = s.yjsRooms)
    (hconnected : s'.connected = s.connected)
    (hhandlers : s'.handlers = Function.update s.handlers s.nextHandler y)
    (hnext : s'.nextHandler = s.nextHandler + 1) : RoomStep s e s' :=
  .same hrooms hconnected.ge fun _ => suspended_of_suspend hhandlers hnext

private theorem yjsRooms_cleanupYjs (s : State) (k : SocketId) :
    (s.cleanupYjs k).yjsRooms = Function.update s.yjsRooms k none ∧
      (s.cleanupYjs k).connected = s.connected ∧ (s.cleanupYjs k).handlers = s.handlers ∧
      (s.cleanupYjs k).nextHandler = s.nextHandler := by
  unfold State.cleanupYjs
  split
  · next hnone => exact ⟨by rw [← hnone, Function.update_eq_self], rfl, rfl, rfl⟩
  · exact ⟨rfl, rfl, rfl, rfl⟩

private theorem rooms_disconnect (k : SocketId) :
    RoomStep s (.disconnect k) (s.handleDisconnect k) := by
  rcases s.handleDisconnect_cases k with ⟨ws, userId, -, -, heq⟩ | ⟨hnone, heq, -⟩
  · rw [heq]
    refine .leaving k rfl rfl (fun j => suspended_of_suspend rfl rfl) ?_
    exact suspended_self (x := ⟨k, .leaveRemovePresence ws userId⟩) rfl rfl ⟨rfl, rfl⟩
  · obtain ⟨hrooms, hconnected, hhandlers, hnext⟩ := yjsRooms_cleanupYjs
      { s with
        connected := s.connected.erase k
        rooms := fun room => (s.rooms room).erase k } k
    rw [heq]
    refine .cleaned k hrooms hconnected.ge (fun j _ => suspended_of_eq hhandlers hnext) ?_
    simp only [State.managerEvents]

private theorem rooms_yjsJoin (k : SocketId) (n : NodeId) :
    RoomStep s e (s.handleYjsJoin k n).1 := by
  rcases s.handleYjsJoin_cases k n with
    ⟨text, heq⟩ | ⟨userId, ws, -, -, ⟨-, heq⟩ | ⟨role, -, heq⟩⟩
  · rw [heq]
    exact .of_eq rfl rfl rfl rfl
  · rw [heq]
    exact .of_suspend rfl rfl rfl rfl
  · rw [heq]
    exact .of_suspend rfl rfl rfl rfl

private theorem rooms_yjsLeave (k : SocketId) (n : NodeId) :
    RoomStep s (.yjsLeave k n) (s.handleYjsLeave k n) := by
  unfold State.handleYjsLeave
  dsimp only
  split
  · next hnone =>
      exact .leftNode k n rfl (fun _ _ => rfl) (fun m hm _ => hm) (fun _ => hnone) rfl
        fun j hj => hj
  · next nodeIds hnodes =>
      refine .leftNode k n rfl (fun j hj => Function.update_of_ne hj ..) (fun m hm hne => ?_)
        (fun hnone => ?_) rfl fun j hj => hj
      · have hm : m ∈ nodeIds := by simpa [State.joined, hnodes] using hm
        have hrest : m ∈ nodeIds.erase n := (List.mem_erase_of_ne hne).mpr hm
        have hsome : nodeIds.erase n ≠ [] := List.ne_nil_of_mem hrest
        have hself : Function.update s.yjsRooms k
            (if nodeIds.erase n = [] then none else some (nodeIds.erase n)) k =
              some (nodeIds.erase n) := by
          rw [Function.update_self, if_neg hsome]
        show m ∈ (Function.update s.yjsRooms k _ k).getD []
        rw [hself]
        exact hrest
      · rw [hnone] at hnodes
        cases hnodes

private theorem rooms_membershipReply {h : HandlerId} {ok : Bool} {out : List Output}
    (hs' : s.membershipReply h ok = some (s', out)) : RoomStep s e s' := by
  rcases s.membershipReply_cases hs' with
    ⟨socket, ws, member, hhandler, ⟨-, rfl, -⟩ | ⟨role, -, -, -, rfl⟩⟩ |
    ⟨socket, userId, ws, n, hhandler, ⟨-, rfl, -⟩ | ⟨-, -, rfl, -⟩ | ⟨role, -, -, -, rfl⟩⟩
  · exact .of_handler hhandler rfl rfl rfl rfl rfl
  · exact .of_handler hhandler rfl rfl rfl rfl rfl
  · exact .of_handler hhandler rfl rfl rfl rfl rfl
  · exact .of_handler hhandler rfl rfl rfl rfl rfl
  · -- the query has ended, and the load is a handler of its own
    have hfinish : ∀ j, s.Leaving j → (s.finish h).Leaving j := by
      intro j hj
      refine suspended_of_update rfl rfl (fun x hx ⟨_, hleaves⟩ => ?_) hj
      rw [hhandler] at hx
      obtain rfl := Option.some.inj hx
      cases hleaves
    exact .same rfl subset_rfl fun j hj =>
      suspended_of_suspend (s := s.finish h) rfl rfl (hfinish j hj)

private theorem rooms_redisReply {reply : Reply} {out : List Output}
    (hs' : s.redisReply reply = some (s', out)) : RoomStep s (.redisReply reply) s' := by
  obtain ⟨h, rest, hcommands, ⟨rfl, -⟩ | ⟨socket, pending, hhandler, hawaits, hcase⟩⟩ :=
    s.redisReply_cases hs'
  · exact .of_eq rfl rfl rfl rfl
  · have hcommand : s.commands.head? = some h := by rw [hcommands]; rfl
    -- the handlers of other sockets are not touched
    have hother : ∀ {y : Option Handler} {j : SocketId} (x : Handler), j ≠ socket →
        s.handlers h = some x → x.socket = j ∧ x.pending.leaves = true →
        ∃ x', y = some x' ∧ x'.socket = j ∧ x'.pending.leaves = true := by
      rintro y j x hne hx ⟨hsocket, -⟩
      rw [hhandler] at hx
      obtain rfl := Option.some.inj hx
      exact absurd hsocket.symm hne
    rcases hcase with ⟨next, hnext, rfl⟩ | ⟨rfl, ⟨ws, rfl⟩, rfl, -⟩ | ⟨hends, rfl⟩
    · refine .same rfl subset_rfl fun j => suspended_of_update (s := s) (h := h)
        (y := some ⟨socket, next⟩) rfl rfl ?_
      rintro x hx ⟨hsocket, hleaves⟩
      rw [hhandler] at hx
      obtain rfl := Option.some.inj hx
      refine ⟨_, rfl, hsocket, ?_⟩
      cases pending <;> cases hnext <;> first | rfl | cases hleaves
    · obtain ⟨hrooms, hconnected, hhandlers, hnext⟩ := yjsRooms_cleanupYjs
        (({ s with
            commands := rest
            presence := (s.executeCommand (.leaveListPresence ws)).presence
            awareness := (s.executeCommand (.leaveListPresence ws)).awareness } : State).finish h)
        socket
      refine .cleaned socket hrooms ((Finset.erase_subset _ _).trans hconnected.ge)
        (fun j hj => suspended_of_update (s := s) (h := h) (y := none) hhandlers
          hnext (fun x => hother x hj)) ?_
      simp [State.managerEvents, hcommands, hhandler]
    · by_cases hleaves : pending.leaves = true
      · have hfailed : reply ≠ .ok := by
          rintro rfl
          obtain ⟨hnext, hlast⟩ := hends rfl
          cases pending with
          | leaveRemovePresence => cases hnext
          | leaveListPresence ws => exact hlast ws rfl
          | _ => cases hleaves
        exact .failed socket h _ _ rfl hfailed hcommand hhandler rfl hleaves rfl rfl
          fun j hj => suspended_of_update (s := s) (h := h) (y := none) rfl rfl
            (fun x => hother x hj)
      · exact .of_handler hhandler (Bool.eq_false_of_not_eq_true hleaves) rfl rfl rfl rfl

/-- Who is admitted to a node has joined it. -/
private theorem mem_joined_finishYjsJoin {k : SocketId} {n m : NodeId} {readOnly : Bool}
    (doc : YDoc) (hm : m ∈ s.joined k ∨ m = n) :
    m ∈ (s.finishYjsJoin k n readOnly doc).1.joined k := by
  have hself : (s.finishYjsJoin k n readOnly doc).1.joined k =
      if n ∈ s.joined k then s.joined k else s.joined k ++ [n] := by
    show (Function.update s.yjsRooms k _ k).getD [] = _
    rw [Function.update_self]
    rfl
  rw [hself]
  split
  · next hmem => exact hm.elim id fun heq => heq ▸ hmem
  · exact List.mem_append.mpr (hm.imp_right List.mem_singleton.mpr)

private theorem rooms_resumeYjsJoin {i : HandlerId} {out : List Output}
    (hs' : s.resumeYjsJoin i = some (s', out)) : RoomStep s (.resumeYjsJoin i) s' := by
  obtain ⟨socket, ws, role, n, get, c, hhandler, hget, ⟨failure, -, rfl, -⟩ | ⟨r, hawaited, heq⟩⟩ :=
    s.resumeYjsJoin_cases hs'
  · exact .of_handler hhandler rfl rfl rfl rfl rfl
  · cases heq
    refine .admitted i socket n rfl ?_ (fun j hj => Function.update_of_ne hj ..)
      (fun m hm => mem_joined_finishYjsJoin (s.manager.mem.heap r).doc hm) rfl fun j hj => ?_
    · simp [State.admits, hhandler, hget, hawaited]
    · refine suspended_of_update (s := s) (h := i) (y := none) rfl rfl ?_ hj
      rintro x hx ⟨-, hleaves⟩
      rw [hhandler] at hx
      obtain rfl := Option.some.inj hx
      cases hleaves

/-- **The rooms**, one step at a time. -/
theorem step_rooms (hstep : step lex verify s e = some s') : RoomStep s e s' := by
  obtain ⟨out, h⟩ : ∃ out, handle lex verify s e = some (s', out) := ⟨_, step_eq_some.mp hstep⟩
  cases e with
  | connect token =>
      cases h
      unfold State.handleConnection
      split
      · exact .of_eq rfl rfl rfl rfl
      · exact .same rfl (Finset.subset_insert _ _) fun _ hj => hj
  | disconnect k =>
      rw [handle] at h
      split at h <;> cases h
      exact rooms_disconnect k
  | joinWorkspace k ws userName color profile =>
      rw [handle] at h
      split at h
      · unfold State.handleJoin at h
        split at h <;> cases h
        · exact .of_eq rfl rfl rfl rfl
        · exact .of_suspend rfl rfl rfl rfl
      · cases h
  | yjsJoin k n =>
      rw [handle] at h
      split at h
      · have hs' := congrArg Prod.fst (Option.some.inj h)
        rw [← show _ = s' from hs']
        exact rooms_yjsJoin k n
      · cases h
  | yjsLeave k n =>
      rw [handle] at h
      split at h <;> cases h
      exact rooms_yjsLeave k n
  | membershipReply i ok => exact rooms_membershipReply h
  | resumeYjsJoin i => exact rooms_resumeYjsJoin h
  | redisReply reply => exact rooms_redisReply h
  | wsAwareness k ws data =>
      rw [handle] at h
      split at h <;> cases h
      unfold State.handleWsAwareness
      split
      · exact .of_suspend rfl rfl rfl rfl
      · exact .of_eq rfl rfl rfl rfl
  | restart =>
      cases h
      exact .restart (fun _ => rfl) fun _ => rfl
  | presenceExpire ws =>
      cases h
      exact .of_eq rfl rfl rfl rfl
  | _ =>
      have hsame := sameSessions_of_relayed hstep trivial
      exact .of_eq hsame.yjsRooms hsame.connected hsame.handlers hsame.nextHandler

/-- A client is added by the end of a `yjs:join` and by nothing else. -/
private theorem resume_of_addClient (h : step lex verify s e = some s') {n : NodeId}
    {k : SocketId} (hadd : .addClient n k ∈ s.managerEvents e) : ∃ i, e = .resumeYjsJoin i := by
  cases e with
  | resumeYjsJoin i => exact ⟨i, rfl⟩
  | manager x =>
      obtain rfl : DocManager.Event.addClient n k = x := by
        simpa [State.managerEvents] using hadd
      simp [step, handle, internal] at h
  | disconnect j =>
      simp only [State.managerEvents] at hadd
      split at hadd
      · cases hadd
      · obtain ⟨m, -, heq⟩ := List.mem_map.mp hadd
        cases heq
  | yjsJoin j m =>
      simp only [State.managerEvents] at hadd
      split at hadd
      · split at hadd
        · cases hadd
        · next ws _ _ membership _ => cases membership <;> simp [State.loadEvents] at hadd
      · cases hadd
  | yjsSync j m data =>
      simp only [State.managerEvents, State.syncEvents] at hadd
      split at hadd
      · cases hadd
      · rcases List.mem_cons.mp hadd with heq | hadd
        · cases heq
        · split at hadd <;> simp at hadd
  | membershipReply i ok =>
      simp only [State.managerEvents] at hadd
      split at hadd
      · next userId ws m _ =>
          cases ok with
          | false => cases hadd
          | true =>
              cases hrole : s.memberships userId ws <;> simp [hrole, State.loadEvents] at hadd
      · cases hadd
  | redisReply reply =>
      simp only [State.managerEvents] at hadd
      split at hadd
      · split at hadd
        · obtain ⟨m, -, heq⟩ := List.mem_map.mp hadd
          cases heq
        · cases hadd
      · cases hadd
  | broadcast event =>
      simp only [State.managerEvents] at hadd
      split at hadd <;> simp at hadd
  | _ => simp [State.managerEvents] at hadd

/-- Who is added as a client is entered in `yjsRooms` by the same step. -/
private theorem joined_of_addClient (h : step lex verify s e = some s') {n : NodeId}
    {k : SocketId} (hadd : .addClient n k ∈ s.managerEvents e) : n ∈ s'.joined k := by
  obtain ⟨i, rfl⟩ := resume_of_addClient h hadd
  obtain ⟨out, h⟩ : ∃ out, s.resumeYjsJoin i = some (s', out) := ⟨_, step_eq_some.mp h⟩
  obtain ⟨socket, ws, role, m, get, c, hhandler, hget, hcase⟩ := s.resumeYjsJoin_cases h
  simp only [State.managerEvents, State.resumeEvents, hhandler, hget, Option.bind_some] at hadd
  rcases hcase with ⟨failure, hawaited, -, -⟩ | ⟨r, hawaited, heq⟩
  · simp [hawaited] at hadd
  · cases heq
    obtain ⟨rfl, rfl⟩ : n = m ∧ k = socket := by simpa [hawaited] using hadd
    exact mem_joined_finishYjsJoin (s.manager.mem.heap r).doc (Or.inr rfl)

/-! ### The invariant -/

/-- **The invariant.** -/
structure GhostInv (s : State) : Prop where
  manager : DocManager.Inv s.manager
  /-- The two maps agree on who is in a document… -/
  client : ∀ {n k}, k ∈ s.manager.mem.clients n → n ∈ s.joined k
  /-- …and who is entered in one is there, or is about to be taken out. -/
  tracked : ∀ {k}, s.yjsRooms k ≠ none → k ∈ s.connected ∨ s.Leaving k

theorem ghostInv_init (nodes : NodeId → Option DocManager.NodeRow)
    (memberships : UserId → WorkspaceId → Option Role) : GhostInv (State.init nodes memberships) where
  manager := DocManager.inv_init nodes
  client h := by cases h
  tracked h := absurd rfl h

namespace GhostInv

/-- Every step keeps the manager's own invariant. -/
private theorem manager_step (hG : GhostInv s) (h : Gateway.step lex verify s e = some s') :
    DocManager.Inv s'.manager := by
  have hexec := exec_manager h
  have hkeep : ∀ (es : List DocManager.Event) (m : DocManager.State), DocManager.Inv m →
      exec (DocManager.step lex) m es = some s'.manager → DocManager.Inv s'.manager := by
    intro es
    induction es with
    | nil =>
        intro m hm hes
        cases hes
        exact hm
    | cons x es ih =>
        intro m hm hes
        rw [exec_cons, Option.bind_eq_some_iff] at hes
        obtain ⟨m₁, hstep, hes⟩ := hes
        exact ih m₁ (hm.step hstep) hes
  exact hkeep _ _ hG.manager hexec

/-- A client of the state after is still entered in `yjsRooms`, or it has been removed. -/
private theorem client_step (hG : GhostInv s) (h : Gateway.step lex verify s e = some s')
    {n : NodeId} {k : SocketId} (hk : k ∈ s'.manager.mem.clients n) : n ∈ s'.joined k := by
  have hexec := exec_manager h
  rcases DocManager.clients_of_exec hG.manager hexec hk with hold | hadd
  · have hold := hG.client hold
    have hgone : .removeClient n k ∈ s.managerEvents e → n ∈ s'.joined k := fun hremove => by
      by_contra hnot
      refine DocManager.notMem_of_exec hG.manager hexec hremove (fun hadd => ?_) hk
      exact hnot (joined_of_addClient h hadd)
    cases step_rooms h with
    | same hrooms _ _ =>
        rw [State.joined, hrooms]
        exact hold
    | leaving j hrooms _ _ _ =>
        rw [State.joined, hrooms]
        exact hold
    | cleaned j hrooms _ _ hevents =>
        by_cases hj : k = j
        · subst hj
          exact hgone (hevents ▸ List.mem_map.mpr ⟨n, hold, rfl⟩)
        · rw [State.joined, hrooms, Function.update_of_ne hj]
          exact hold
    | failed j i x reply _ _ _ _ _ _ hrooms _ _ =>
        rw [State.joined, hrooms]
        exact hold
    | leftNode j m hevents hrooms hself _ _ _ =>
        by_cases hj : k = j
        · subst hj
          by_cases hn : n = m
          · subst hn
            exact hgone (hevents ▸ List.mem_singleton_self _)
          · exact hself n hold hn
        · rw [State.joined, hrooms k hj]
          exact hold
    | admitted i j m _ _ hrooms hself _ _ =>
        by_cases hj : k = j
        · subst hj
          exact hself n (Or.inl hold)
        · rw [State.joined, hrooms k hj]
          exact hold
    | restart _ hdocs =>
        obtain ⟨r, hr, -⟩ := DocManager.Memory.mem_clients.mp hk
        rw [hdocs n] at hr
        cases hr
  · exact joined_of_addClient h hadd

private theorem tracked_step (hG : GhostInv s) (h : Gateway.step lex verify s e = some s')
    (htime : OnTime s e s') {k : SocketId} (hk : s'.yjsRooms k ≠ none) :
    k ∈ s'.connected ∨ s'.Leaving k := by
  cases step_rooms h with
  | same hrooms hconnected hleaving =>
      exact (hG.tracked (hrooms ▸ hk)).imp (fun hin => hconnected hin) (hleaving k)
  | leaving j hrooms hconnected hleaving hj =>
      by_cases hkj : k = j
      · exact Or.inr (hkj ▸ hj)
      · refine (hG.tracked (hrooms ▸ hk)).imp (fun hin => ?_) (hleaving k)
        rw [hconnected]
        exact Finset.mem_erase.mpr ⟨hkj, hin⟩
  | cleaned j hrooms hconnected hleaving _ =>
      rw [hrooms] at hk
      have hkj : k ≠ j := by
        rintro rfl
        exact hk (Function.update_self ..)
      rw [Function.update_of_ne hkj] at hk
      exact (hG.tracked hk).imp (fun hin => hconnected (Finset.mem_erase.mpr ⟨hkj, hin⟩))
        (hleaving k hkj)
  | failed j i x reply he hreply hcommand hhandler hsocket hleaves hrooms hconnected hleaving =>
      subst he
      rw [hrooms] at hk
      have hkj : k ≠ j := by
        rintro rfl
        exact hk (hsocket ▸ htime hreply i hcommand x hhandler hleaves)
      exact (hG.tracked hk).imp (fun hin => hconnected ▸ hin) (hleaving k hkj)
  | leftNode j m _ hrooms _ hnone hconnected hleaving =>
      have hold : s.yjsRooms k ≠ none := by
        by_cases hkj : k = j
        · subst hkj
          exact fun hn => hk (hnone hn)
        · rwa [← hrooms k hkj]
      exact (hG.tracked hold).imp (fun hin => hconnected ▸ hin) (hleaving k)
  | admitted i j m he hadmits hrooms _ hconnected hleaving =>
      subst he
      by_cases hkj : k = j
      · subst hkj
        exact (htime k hadmits).imp (fun hin => hconnected ▸ hin) (hleaving k)
      · rw [hrooms k hkj] at hk
        exact (hG.tracked hk).imp (fun hin => hconnected ▸ hin) (hleaving k)
  | restart hrooms _ => exact absurd (hrooms k) hk

/-- Every step in time keeps the invariant. -/
theorem step (hG : GhostInv s) (h : Gateway.step lex verify s e = some s')
    (htime : OnTime s e s') : GhostInv s' :=
  ⟨hG.manager_step h, hG.client_step h, hG.tracked_step h htime⟩

theorem noGhosts (hG : GhostInv s) : NoGhosts s := by
  intro k hk hended
  have hrooms : s.yjsRooms k = none := by
    by_contra hsome
    rcases hG.tracked hsome with hin | ⟨h, hlt, x, hx, hsocket, -⟩
    · exact hk hin
    · exact hended h hlt x hx hsocket
  refine ⟨hrooms, fun n hn => ?_⟩
  have hjoined := hG.client hn
  rw [State.joined, hrooms] at hjoined
  cases hjoined

end GhostInv

/-! ### Runs -/

/-- **No ghost clients** in the runs in which every join resumes in time and no
disconnect of a socket that has joined a node fails. -/
theorem along_noGhosts (lex : Lexical) (verify : String → Option UserId)
    (nodes : NodeId → Option DocManager.NodeRow)
    (memberships : UserId → WorkspaceId → Option Role) (es : List Event)
    (hguard : Along (step lex verify) OnTime (State.init nodes memberships) es) :
    Along (step lex verify) (fun _ _ s' => NoGhosts s') (State.init nodes memberships) es := by
  refine along_of_invariant (I := GhostInv) ?_ (ghostInv_init nodes memberships) hguard
  intro s e s' hstep hG htime
  exact ⟨hG.step hstep htime, (hG.step hstep htime).noGhosts⟩

/-- The socket joins the node, and disconnects. -/
def joinedAndGone : List Event :=
  joinSession 0 "token of 9" 7 0 ++ openNode 0 1 ++
    [.disconnect 0, .redisReply .ok, .redisReply .ok]

theorem joinedAndGone_noGhosts :
    Along (step .plain plainToken) OnTime
        (State.init DocManager.oneNode (members [(9, 7, .EDITOR)])) joinedAndGone ∧
      Along (step .plain plainToken) (fun _ _ s' => NoGhosts s')
        (State.init DocManager.oneNode (members [(9, 7, .EDITOR)])) joinedAndGone :=
  ⟨by decide +kernel, along_noGhosts .plain plainToken DocManager.oneNode
    (members [(9, 7, .EDITOR)]) joinedAndGone (by decide +kernel)⟩

/-- The socket disconnects while its join awaits the document, and the disconnect is
dealt with before the join resumes. -/
def goneWhileLoading : List Event :=
  joinSession 0 "token of 9" 7 0 ++ loadNode 0 1 ++
    [.disconnect 0, .redisReply .ok, .redisReply .ok, .resumeYjsJoin 2]

theorem goneWhileLoading_ghost :
    ¬ Along (step .plain plainToken) (fun _ _ s' => NoGhosts s')
        (State.init DocManager.oneNode (members [(9, 7, .EDITOR)])) goneWhileLoading := by
  intro h
  have hrun : (exec (step .plain plainToken)
      (State.init DocManager.oneNode (members [(9, 7, .EDITOR)])) goneWhileLoading).any (fun s =>
        0 ∉ s.connected ∧ s.Ended 0 ∧ 0 ∈ s.manager.mem.clients 1) = true := by
    decide +kernel
  obtain ⟨s, hs, hghost⟩ := (Option.any_eq_true _ _).mp hrun
  obtain ⟨hgone, hended, hclient⟩ := of_decide_eq_true hghost
  have hnone : NoGhosts s :=
    h.state (fun _ _ _ => ⟨rfl, fun _ => Finset.notMem_empty _⟩) hs
  exact (hnone 0 hgone hended).2 1 hclient

end AideepWebsocket.Gateway
