import AideepWebsocket.Gateway.Cases

/-!
# Who is present

The presence hash of a workspace has one field per user.  `join_workspace` sets it,
`handleDisconnect` deletes it, and neither looks at the other sockets of the user, at
the workspace the socket was in before, or at whether the socket is still there when
the command is executed.  `Sole` says when this does no harm: a field is deleted only
if it describes no other socket, a socket that moves leaves no field behind that
describes nobody, and a field is set only for somebody who is there.  In these runs the
hash is exact whenever nothing is pending (`along_presenceExact`).

* `Follows`, `PresenceStep` — what a step does to the suspended joins and disconnects,
  and to the connections, the workspaces of the sockets and the hashes;
* `PresenceInv` — the invariant: who is listed is present or about to be removed, and
  who is present is listed or about to be.
-/

namespace AideepWebsocket.Gateway

open Library
open DocManager (Reply)

variable {lex : Lexical} {verify : String → Option UserId} {s s' : State} {e : Event}

/-- The member that a `join_workspace` is going to list. -/
def Pending.member : Pending → Option PresenceMember
  | .joinCheckWorkspace _ member | .joinGetCachedAwareness _ member
  | .joinUpsertPresence _ member => some member
  | _ => none

/-- The handler is past its membership check, and going to list the user. -/
def Pending.Lists (ws : WorkspaceId) (userId : UserId) : Pending → Prop
  | .joinGetCachedAwareness ws' member | .joinUpsertPresence ws' member =>
      ws' = ws ∧ member.userId = userId
  | _ => False

instance (ws : WorkspaceId) (userId : UserId) : DecidablePred (Pending.Lists ws userId) := by
  intro pending
  unfold Pending.Lists
  split <;> infer_instance

namespace State

/-- The user and the workspace of a socket. -/
def seat (s : State) (k : SocketId) : Option UserId × Option WorkspaceId :=
  ((s.data k).userId, (s.data k).workspaceId)

/-- The user is in the hash of the workspace. -/
def Listed (s : State) (ws : WorkspaceId) (userId : UserId) : Prop :=
  ∃ member ∈ s.presence ws, member.userId = userId

/-- A connected socket of the user is in the workspace. -/
def Present (s : State) (ws : WorkspaceId) (userId : UserId) : Prop :=
  ∃ k ∈ s.connected, (s.data k).userId = some userId ∧ (s.data k).workspaceId = some ws

/-- A join is still going to list the user. -/
def Joining (s : State) (ws : WorkspaceId) (userId : UserId) : Prop :=
  s.Suspended fun x => x.pending.Lists ws userId

/-- A disconnect is still going to remove the user. -/
def Removing (s : State) (ws : WorkspaceId) (userId : UserId) : Prop :=
  s.Suspended fun x => x.pending = .leaveRemovePresence ws userId

instance (s : State) (ws : WorkspaceId) (userId : UserId) : Decidable (s.Listed ws userId) := by
  unfold Listed
  infer_instance

instance (s : State) (ws : WorkspaceId) (userId : UserId) : Decidable (s.Present ws userId) := by
  unfold Present
  infer_instance

instance (s : State) (ws : WorkspaceId) (userId : UserId) : Decidable (s.Joining ws userId) := by
  unfold Joining
  infer_instance

instance (s : State) (ws : WorkspaceId) (userId : UserId) : Decidable (s.Removing ws userId) := by
  unfold Removing
  infer_instance

end State

/-- **Presence is exact** once nothing is pending: the hash of a workspace lists the
users with a connected socket in it. -/
def PresenceExact (s : State) : Prop :=
  s.Idle → ∀ ws userId, s.Listed ws userId ↔ s.Present ws userId

/-- No command of Redis fails, no key expires, and the server keeps running. -/
def Undisturbed : Event → Prop
  | .redisReply reply => reply = .ok
  | .presenceExpire _ | .restart => False
  | _ => True

instance : DecidablePred Undisturbed := by
  intro e
  unfold Undisturbed
  induction e using Event.casesOn <;> infer_instance

/-- The socket may leave the workspace: its user is not listed there, or about to be
removed, or has another socket there. -/
def State.MayLeave (s : State) (k : SocketId) (ws : WorkspaceId) (userId : UserId) : Prop :=
  ¬ s.Listed ws userId ∨ s.Removing ws userId ∨ ∃ j ∈ s.connected, j ≠ k ∧
    (s.data j).userId = some userId ∧ (s.data j).workspaceId = some ws

instance (s : State) (k : SocketId) (ws : WorkspaceId) (userId : UserId) :
    Decidable (s.MayLeave k ws userId) := by
  unfold State.MayLeave
  infer_instance

/-- A socket that moves to another workspace leaves no field behind.  A field is set
for a user who is present or about to be removed, and deleted for one who is not
present or about to be listed again. -/
def Sole (s : State) (e : Event) (_ : State) : Prop :=
  match e with
  | .membershipReply h true =>
      match s.handlers h with
      | some ⟨k, .joinCheckWorkspace ws member⟩ =>
          s.memberships member.userId ws ≠ none → k ∈ s.connected →
            ∀ ws₀ ∈ (s.data k).workspaceId, ws₀ ≠ ws → s.MayLeave k ws₀ member.userId
      | _ => True
  | .redisReply _ =>
      match s.commands.head?.bind s.handlers with
      | some ⟨_, .joinUpsertPresence ws member⟩ =>
          s.Present ws member.userId ∨ s.Removing ws member.userId
      | some ⟨_, .leaveRemovePresence ws userId⟩ => ¬ s.Present ws userId ∨ s.Joining ws userId
      | _ => True
  | _ => True

instance (s : State) (e : Event) (s' : State) : Decidable (Sole s e s') := by
  unfold Sole
  induction e using Event.casesOn with
  | membershipReply h ok =>
      induction ok using Bool.casesOn
      · infer_instance
      · dsimp only
        rcases s.handlers h with _ | ⟨k, pending⟩
        · infer_instance
        · induction pending using Pending.casesOn <;> infer_instance
  | redisReply reply =>
      dsimp only
      rcases s.commands.head?.bind s.handlers with _ | ⟨k, pending⟩
      · infer_instance
      · induction pending using Pending.casesOn <;> infer_instance
  | _ => infer_instance

/-! ### The fields of a hash -/

theorem exists_mem_hSet {ms : List PresenceMember} {member : PresenceMember} {userId : UserId} :
    (∃ m ∈ State.hSet ms member, m.userId = userId) ↔
      (∃ m ∈ ms, m.userId = userId) ∨ userId = member.userId := by
  unfold State.hSet
  split
  · next hany =>
      obtain ⟨m₀, hm₀, hu₀⟩ := List.any_eq_true.mp hany
      have hu₀ : m₀.userId = member.userId := of_decide_eq_true hu₀
      -- the field keeps its place, and the others are untouched
      have hkey : ∀ m : PresenceMember,
          (if m.userId = member.userId then member else m).userId = m.userId := by
        intro m
        split
        · next heq => exact heq.symm
        · rfl
      constructor
      · rintro ⟨m, hm, rfl⟩
        obtain ⟨m', hm', rfl⟩ := List.mem_map.mp hm
        exact Or.inl ⟨m', hm', (hkey m').symm⟩
      · intro h
        obtain ⟨m, hm, hu⟩ : ∃ m ∈ ms, m.userId = userId :=
          h.elim id fun hu => ⟨m₀, hm₀, hu₀.trans hu.symm⟩
        exact ⟨_, List.mem_map.mpr ⟨m, hm, rfl⟩, (hkey m).trans hu⟩
  · constructor
    · rintro ⟨m, hm, rfl⟩
      rcases List.mem_append.mp hm with hm | hm
      · exact Or.inl ⟨m, hm, rfl⟩
      · exact Or.inr (congrArg PresenceMember.userId (List.mem_singleton.mp hm))
    · rintro (⟨m, hm, hu⟩ | hu)
      · exact ⟨m, List.mem_append_left _ hm, hu⟩
      · exact ⟨member, List.mem_append_right _ (List.mem_singleton_self _), hu.symm⟩

theorem exists_mem_hDel {ms : List PresenceMember} {userId₀ userId : UserId} :
    (∃ m ∈ State.hDel ms userId₀, m.userId = userId) ↔
      (∃ m ∈ ms, m.userId = userId) ∧ userId ≠ userId₀ := by
  unfold State.hDel
  constructor
  · rintro ⟨m, hm, rfl⟩
    obtain ⟨hm, hne⟩ := List.mem_filter.mp hm
    exact ⟨⟨m, hm, rfl⟩, by simpa using hne⟩
  · rintro ⟨⟨m, hm, rfl⟩, hne⟩
    exact ⟨m, List.mem_filter.mpr ⟨hm, by simpa using hne⟩, rfl⟩

theorem listed_of_hSet {ws : WorkspaceId} {member : PresenceMember}
    (hpresence : s'.presence = Function.update s.presence ws
      (State.hSet (s.presence ws) member)) {ws' : WorkspaceId} {userId : UserId} :
    s'.Listed ws' userId ↔ s.Listed ws' userId ∨ ws' = ws ∧ userId = member.userId := by
  unfold State.Listed
  rw [hpresence]
  by_cases hws : ws' = ws
  · subst hws
    rw [Function.update_self, exists_mem_hSet]
    simp
  · rw [Function.update_of_ne hws]
    simp [hws]

theorem listed_of_hDel {ws : WorkspaceId} {userId₀ : UserId}
    (hpresence : s'.presence = Function.update s.presence ws
      (State.hDel (s.presence ws) userId₀)) {ws' : WorkspaceId} {userId : UserId} :
    s'.Listed ws' userId ↔ s.Listed ws' userId ∧ ¬ (ws' = ws ∧ userId = userId₀) := by
  unfold State.Listed
  rw [hpresence]
  by_cases hws : ws' = ws
  · subst hws
    rw [Function.update_self, exists_mem_hDel]
    simp
  · rw [Function.update_of_ne hws]
    simp [hws]

/-! ### The suspended joins and disconnects -/

/-- Every suspended handler has a number. -/
def State.Numbered (s : State) : Prop := ∀ i x, s.handlers i = some x → i < s.nextHandler

namespace State.Numbered

/-- A handler goes on or ends. -/
theorem of_update {h : HandlerId} {x : Handler} {y : Option Handler} (hn : s.Numbered)
    (hx : s.handlers h = some x) (hhandlers : s'.handlers = Function.update s.handlers h y)
    (hnext : s'.nextHandler = s.nextHandler) : s'.Numbered := by
  intro i x' hx'
  rw [hnext]
  by_cases hi : i = h
  · exact hi ▸ hn h x hx
  · rw [hhandlers, Function.update_of_ne hi] at hx'
    exact hn i x' hx'

theorem of_suspend {y : Option Handler} (hn : s.Numbered)
    (hhandlers : s'.handlers = Function.update s.handlers s.nextHandler y)
    (hnext : s'.nextHandler = s.nextHandler + 1) : s'.Numbered := by
  intro i x hx
  rw [hnext]
  by_cases hi : i = s.nextHandler
  · exact hi ▸ Nat.lt_succ_self _
  · rw [hhandlers, Function.update_of_ne hi] at hx
    exact Nat.lt_succ_of_lt (hn i x hx)

end State.Numbered

/-- What a step does to the suspended joins and disconnects. -/
structure Follows (s s' : State) : Prop where
  numbered : s.Numbered → s'.Numbered
  /-- A join lists the user of its socket. -/
  members : ∀ {i x' member}, s'.handlers i = some x' → x'.pending.member = some member →
    (∃ x, s.handlers i = some x ∧ x.socket = x'.socket ∧ x.pending.member = some member) ∨
      (s.seat x'.socket).1 = some member.userId
  /-- It goes on until the user is listed… -/
  joining : ∀ {ws userId}, s.Joining ws userId → s'.Joining ws userId ∨ s'.Listed ws userId
  /-- …and a disconnect until the user is not listed. -/
  removing : ∀ {ws userId}, s.Removing ws userId → s'.Removing ws userId ∨ ¬ s'.Listed ws userId

namespace Follows

theorem of_eq (hhandlers : s'.handlers = s.handlers) (hnext : s'.nextHandler = s.nextHandler) :
    Follows s s' where
  numbered h i x hx := hnext ▸ h i x (hhandlers ▸ hx)
  members {_ x' _} hx hm := Or.inl ⟨x', hhandlers ▸ hx, rfl, hm⟩
  joining h := Or.inl (suspended_of_eq hhandlers hnext h)
  removing h := Or.inl (suspended_of_eq hhandlers hnext h)

/-- A handler goes on or ends. -/
theorem of_update {h : HandlerId} {x : Handler} {y : Option Handler}
    (hx : s.handlers h = some x) (hhandlers : s'.handlers = Function.update s.handlers h y)
    (hnext : s'.nextHandler = s.nextHandler)
    (hmember : ∀ x', y = some x' → ∀ member, x'.pending.member = some member →
      x.socket = x'.socket ∧ x.pending.member = some member)
    (hjoin : ∀ ws userId, x.pending.Lists ws userId →
      (∃ x', y = some x' ∧ x'.pending.Lists ws userId) ∨ s'.Listed ws userId)
    (hremove : ∀ ws userId, x.pending = .leaveRemovePresence ws userId → ¬ s'.Listed ws userId) :
    Follows s s' where
  numbered hn := hn.of_update hx hhandlers hnext
  members {i x' member} hx' hm := by
    rw [hhandlers] at hx'
    by_cases hi : i = h
    · rw [hi, Function.update_self] at hx'
      obtain ⟨hsocket, hm'⟩ := hmember x' hx' member hm
      exact Or.inl ⟨x, hi ▸ hx, hsocket, hm'⟩
    · rw [Function.update_of_ne hi] at hx'
      exact Or.inl ⟨x', hx', rfl, hm⟩
  joining {ws userId} hj := by
    by_cases hlisted : s'.Listed ws userId
    · exact Or.inr hlisted
    · refine Or.inl (suspended_of_update hhandlers hnext (fun x' hx' hl => ?_) hj)
      obtain rfl : x = x' := Option.some.inj (hx.symm.trans hx')
      exact (hjoin ws userId hl).resolve_right hlisted
  removing {ws userId} hr := by
    by_cases hlisted : s'.Listed ws userId
    · refine Or.inl (suspended_of_update hhandlers hnext (fun x' hx' hl => ?_) hr)
      obtain rfl : x = x' := Option.some.inj (hx.symm.trans hx')
      exact absurd hlisted (hremove ws userId hl)
    · exact Or.inr hlisted

/-- A handler that has nothing to do with the hashes goes on or ends. -/
theorem of_handler {h : HandlerId} {x : Handler} {y : Option Handler}
    (hx : s.handlers h = some x) (hhandlers : s'.handlers = Function.update s.handlers h y)
    (hnext : s'.nextHandler = s.nextHandler)
    (hy : ∀ x', y = some x' → x'.pending.member = none)
    (hjoin : ∀ ws userId, ¬ x.pending.Lists ws userId)
    (hremove : ∀ ws userId, x.pending ≠ .leaveRemovePresence ws userId) : Follows s s' := by
  refine .of_update hx hhandlers hnext (fun x' hx' member hm => ?_)
    (fun ws userId hl => absurd hl (hjoin ws userId))
    (fun ws userId hl => absurd hl (hremove ws userId))
  rw [hy x' hx'] at hm
  cases hm

/-- A handler that does not await Redis ends. -/
theorem of_end {h : HandlerId} {x : Handler} (hx : s.handlers h = some x)
    (hawaits : x.pending.awaitsRedis = false)
    (hhandlers : s'.handlers = Function.update s.handlers h none)
    (hnext : s'.nextHandler = s.nextHandler) : Follows s s' := by
  refine .of_handler hx hhandlers hnext (fun x' hx' => by cases hx') (fun ws userId hl => ?_)
    (fun ws userId hl => ?_)
  · obtain ⟨socket, pending⟩ := x
    cases pending with
    | joinGetCachedAwareness | joinUpsertPresence => cases hawaits
    | _ => exact hl
  · rw [hl] at hawaits
    cases hawaits

theorem of_suspend {y : Handler}
    (hhandlers : s'.handlers = Function.update s.handlers s.nextHandler (some y))
    (hnext : s'.nextHandler = s.nextHandler + 1)
    (hy : ∀ member, y.pending.member = some member → (s.seat y.socket).1 = some member.userId) :
    Follows s s' where
  numbered hn := hn.of_suspend hhandlers hnext
  members {i x' member} hx' hm := by
    rw [hhandlers] at hx'
    by_cases hi : i = s.nextHandler
    · rw [hi, Function.update_self] at hx'
      obtain rfl := Option.some.inj hx'
      exact Or.inr (hy member hm)
    · rw [Function.update_of_ne hi] at hx'
      exact Or.inl ⟨x', hx', rfl, hm⟩
  joining h := Or.inl (suspended_of_suspend hhandlers hnext h)
  removing h := Or.inl (suspended_of_suspend hhandlers hnext h)

theorem trans {t : State} (h : Follows s t) (h' : Follows t s') (hseat : t.seat = s.seat)
    (hpresence : s'.presence = t.presence) : Follows s s' where
  numbered hn := h'.numbered (h.numbered hn)
  members {i x' member} hx' hm := by
    rcases h'.members hx' hm with ⟨x, hx, hsocket, hmember⟩ | hself
    · rcases h.members hx hmember with ⟨y, hy, hsocket', hmember'⟩ | hself
      · exact Or.inl ⟨y, hy, hsocket'.trans hsocket, hmember'⟩
      · exact Or.inr (hsocket ▸ hself)
    · exact Or.inr (hseat ▸ hself)
  joining {ws userId} hj := by
    rcases h.joining hj with hj | hlisted
    · exact h'.joining hj
    · refine Or.inr ?_
      unfold State.Listed at hlisted ⊢
      rwa [hpresence]
  removing {ws userId} hr := by
    rcases h.removing hr with hr | hlisted
    · exact h'.removing hr
    · refine Or.inr ?_
      unfold State.Listed at hlisted ⊢
      rwa [hpresence]

end Follows

/-! ### One step -/

/-- What a step can do to the connections, the workspaces of the sockets and the
hashes. -/
inductive PresenceStep (s : State) (e : Event) (s' : State) : Prop
  | same (hconnected : s'.connected = s.connected) (hsocket : s'.nextSocket = s.nextSocket)
      (hseat : s'.seat = s.seat) (hpresence : s'.presence = s.presence)
  | connected (userId : UserId) (hconnected : s'.connected = insert s.nextSocket s.connected)
      (hsocket : s'.nextSocket = s.nextSocket + 1)
      (hseat : s'.seat = Function.update s.seat s.nextSocket
        (some userId, (s.seat s.nextSocket).2))
      (hpresence : s'.presence = s.presence)
  /-- A disconnect is going to remove the user of the socket. -/
  | left (k : SocketId) (hconnected : s'.connected = s.connected.erase k)
      (hsocket : s'.nextSocket = s.nextSocket) (hseat : s'.seat = s.seat)
      (hpresence : s'.presence = s.presence)
      (hremoving : ∀ ws userId, s.seat k = (some userId, some ws) → s'.Removing ws userId)
  /-- A join has found its member, and is going to list it. -/
  | moved (i : HandlerId) (k : SocketId) (ws : WorkspaceId) (member : PresenceMember)
      (he : e = .membershipReply i true)
      (hhandler : s.handlers i = some ⟨k, .joinCheckWorkspace ws member⟩)
      (hmember : s.memberships member.userId ws ≠ none)
      (hconnected : s'.connected = s.connected) (hsocket : s'.nextSocket = s.nextSocket)
      (hseat : s'.seat = Function.update s.seat k ((s.seat k).1, some ws))
      (hpresence : s'.presence = s.presence)
      (hjoining : s.Numbered → s'.Joining ws member.userId)
  /-- A field is set. -/
  | listed (k : SocketId) (ws : WorkspaceId) (member : PresenceMember) (reply : Reply)
      (he : e = .redisReply reply)
      (hcommand : s.commands.head?.bind s.handlers = some ⟨k, .joinUpsertPresence ws member⟩)
      (hconnected : s'.connected = s.connected) (hsocket : s'.nextSocket = s.nextSocket)
      (hseat : s'.seat = s.seat)
      (hpresence : s'.presence = Function.update s.presence ws
        (State.hSet (s.presence ws) member))
  /-- A field is deleted. -/
  | removed (k : SocketId) (ws : WorkspaceId) (userId : UserId) (reply : Reply)
      (he : e = .redisReply reply)
      (hcommand : s.commands.head?.bind s.handlers = some ⟨k, .leaveRemovePresence ws userId⟩)
      (hconnected : s'.connected = s.connected) (hsocket : s'.nextSocket = s.nextSocket)
      (hseat : s'.seat = s.seat)
      (hpresence : s'.presence = Function.update s.presence ws
        (State.hDel (s.presence ws) userId))

/-- Assignments to the other fields of `client.data` leave the seats as they are. -/
private theorem seat_of_data {k : SocketId} {d : ClientData}
    (hdata : s'.data = Function.update s.data k d) (huser : d.userId = (s.data k).userId)
    (hws : d.workspaceId = (s.data k).workspaceId) : s'.seat = s.seat := by
  funext j
  unfold State.seat
  rw [hdata]
  by_cases hj : j = k
  · subst hj
    rw [Function.update_self, huser, hws]
  · rw [Function.update_of_ne hj]

private theorem presence_connect (token : Option String) :
    Follows s (s.handleConnection verify token) ∧
      PresenceStep s e (s.handleConnection verify token) := by
  unfold State.handleConnection
  split
  · exact ⟨.of_eq rfl rfl, .same rfl rfl rfl rfl⟩
  · next userId _ =>
      refine ⟨.of_eq rfl rfl, .connected userId rfl rfl ?_ rfl⟩
      funext j
      show ((Function.update s.data s.nextSocket _ j).userId,
        (Function.update s.data s.nextSocket _ j).workspaceId) = _
      by_cases hj : j = s.nextSocket
      · subst hj
        rw [Function.update_self, Function.update_self]
        rfl
      · rw [Function.update_of_ne hj, Function.update_of_ne hj]
        rfl

private theorem presence_disconnect (k : SocketId) :
    Follows s (s.handleDisconnect k) ∧ PresenceStep s e (s.handleDisconnect k) := by
  rcases s.handleDisconnect_cases k with
    ⟨ws, userId, hws, huser, heq⟩ | ⟨hnone, heq, _, _, hclean⟩
  · rw [heq]
    refine ⟨.of_suspend rfl rfl fun member hm => (by cases hm), .left k rfl rfl rfl rfl ?_⟩
    intro ws' userId' hseat
    obtain ⟨rfl, rfl⟩ : userId = userId' ∧ ws = ws' := by
      simpa [State.seat, hws, huser] using hseat
    exact suspended_self (x := ⟨k, .leaveRemovePresence ws userId⟩) rfl rfl rfl
  · rw [heq, hclean]
    refine ⟨.of_eq rfl rfl, .left k rfl rfl rfl rfl ?_⟩
    intro ws userId hk
    obtain ⟨huser, hws⟩ := Prod.mk.inj hk
    exact absurd huser (hnone ws userId hws)

private theorem presence_yjsJoin (k : SocketId) (n : NodeId) :
    Follows s (s.handleYjsJoin k n).1 ∧ PresenceStep s e (s.handleYjsJoin k n).1 := by
  rcases s.handleYjsJoin_cases k n with
    ⟨text, heq⟩ | ⟨userId, ws, -, -, ⟨-, heq⟩ | ⟨role, -, heq⟩⟩
  · rw [heq]
    exact ⟨.of_eq rfl rfl, .same rfl rfl rfl rfl⟩
  · rw [heq]
    exact ⟨.of_suspend rfl rfl fun member hm => (by cases hm), .same rfl rfl rfl rfl⟩
  · rw [heq]
    exact ⟨.of_suspend rfl rfl fun member hm => (by cases hm), .same rfl rfl rfl rfl⟩

private theorem seat_continueJoin (s : State) (h : HandlerId) (k : SocketId) (ws : WorkspaceId)
    (member : PresenceMember) (role : Role) :
    (s.continueJoin h k ws member (some role)).1.seat =
      Function.update s.seat k ((s.seat k).1, some ws) := by
  funext j
  show ((Function.update s.data k _ j).userId, (Function.update s.data k _ j).workspaceId) = _
  by_cases hj : j = k
  · subst hj
    rw [Function.update_self, Function.update_self]
    rfl
  · rw [Function.update_of_ne hj, Function.update_of_ne hj]
    rfl

private theorem presence_membershipReply {h : HandlerId} {ok : Bool} {out : List Output}
    (hs' : s.membershipReply h ok = some (s', out)) :
    Follows s s' ∧ PresenceStep s (.membershipReply h ok) s' := by
  rcases s.membershipReply_cases hs' with
    ⟨socket, ws, member, hhandler, ⟨-, rfl, -⟩ | ⟨role, rfl, hrole, -, rfl⟩⟩ |
    ⟨socket, userId, ws, n, hhandler, ⟨-, rfl, -⟩ | ⟨-, -, rfl, -⟩ | ⟨role, -, -, -, rfl⟩⟩
  · exact ⟨.of_end hhandler rfl rfl rfl, .same rfl rfl rfl rfl⟩
  · constructor
    · refine .of_update hhandler (y := some ⟨socket, .joinGetCachedAwareness ws member⟩)
        rfl rfl ?_ (fun _ _ hl => hl.elim) fun _ _ hr => by cases hr
      intro x' hx' member' hm
      obtain rfl := Option.some.inj hx'
      exact ⟨rfl, hm⟩
    · refine .moved h socket ws member rfl hhandler (by simp [hrole]) rfl rfl
        (seat_continueJoin _ h socket ws member role) rfl fun hnumbered => ?_
      refine ⟨h, hnumbered h _ hhandler, ⟨socket, .joinGetCachedAwareness ws member⟩, ?_, rfl, rfl⟩
      exact Function.update_self ..
  · exact ⟨.of_end hhandler rfl rfl rfl, .same rfl rfl rfl rfl⟩
  · exact ⟨.of_end hhandler rfl rfl rfl, .same rfl rfl (seat_of_data rfl rfl rfl) rfl⟩
  · -- the query has ended, and the load is a handler of its own
    refine ⟨(show Follows s (s.finish h) from .of_end hhandler rfl rfl rfl).trans ?_ rfl rfl,
      .same rfl rfl (seat_of_data rfl rfl rfl) rfl⟩
    exact .of_suspend rfl rfl fun member hm => by cases hm

private theorem presence_redisReply {out : List Output}
    (hs' : s.redisReply .ok = some (s', out)) :
    Follows s s' ∧ PresenceStep s (.redisReply .ok) s' := by
  unfold State.redisReply at hs'
  split at hs'
  · cases hs'
  · next h rest hcommands =>
      dsimp only at hs'
      split at hs'
      · cases hs'
        exact ⟨.of_eq rfl rfl, .same rfl rfl rfl rfl⟩
      · next socket pending hhandler =>
          have hcommand : s.commands.head?.bind s.handlers = some ⟨socket, pending⟩ := by
            rw [hcommands]
            exact hhandler
          cases pending with
          | joinGetCachedAwareness ws member =>
              cases hs'
              refine ⟨.of_update hhandler (y := some ⟨socket, .joinUpsertPresence ws member⟩)
                rfl rfl ?_ ?_ fun _ _ hr => (by cases hr), .same rfl rfl rfl rfl⟩
              · intro x' hx' member' hm
                obtain rfl := Option.some.inj hx'
                exact ⟨rfl, hm⟩
              · exact fun _ _ hl => Or.inl ⟨_, rfl, hl⟩
          | joinUpsertPresence ws member =>
              cases hs'
              refine ⟨.of_update hhandler (y := some ⟨socket, .joinExpirePresence ws⟩)
                rfl rfl ?_ ?_ fun _ _ hr => (by cases hr),
                .listed socket ws member .ok rfl hcommand rfl rfl rfl rfl⟩
              · intro x' hx' member' hm
                obtain rfl := Option.some.inj hx'
                cases hm
              · rintro ws' userId ⟨rfl, rfl⟩
                exact Or.inr ((listed_of_hSet rfl).mpr (Or.inr ⟨rfl, rfl⟩))
          | leaveRemovePresence ws userId =>
              cases hs'
              refine ⟨.of_update hhandler (y := some ⟨socket, .leaveListPresence ws⟩)
                rfl rfl ?_ (fun _ _ hl => hl.elim) ?_,
                .removed socket ws userId .ok rfl hcommand rfl rfl rfl rfl⟩
              · intro x' hx' member' hm
                obtain rfl := Option.some.inj hx'
                cases hm
              · rintro ws' userId' hr
                cases hr
                exact fun hlisted => ((listed_of_hDel rfl).mp hlisted).2 ⟨rfl, rfl⟩
          | leaveListPresence ws =>
              cases hs'
              obtain ⟨_, _, hclean⟩ :=
                cleanupYjs_eq (({ s with commands := rest } : State).finish h) socket
              rw [hclean]
              exact ⟨.of_handler hhandler rfl rfl (fun x' hx' => by cases hx')
                (fun _ _ => id) fun _ _ hr => (by cases hr), .same rfl rfl rfl rfl⟩
          | joinCheckWorkspace ws member =>
              cases hs'
              exact ⟨.of_eq rfl rfl, .same rfl rfl rfl rfl⟩
          | yjsCheckWorkspace userId ws n =>
              cases hs'
              exact ⟨.of_eq rfl rfl, .same rfl rfl rfl rfl⟩
          | yjsGetOrCreateDoc ws role n get =>
              cases hs'
              exact ⟨.of_eq rfl rfl, .same rfl rfl rfl rfl⟩
          | _ =>
              cases hs'
              exact ⟨.of_handler hhandler rfl rfl (fun x' hx' => by cases hx' <;> rfl)
                (fun _ _ => id) fun _ _ hr => (by cases hr), .same rfl rfl rfl rfl⟩

private theorem presence_resumeYjsJoin {i : HandlerId} {out : List Output}
    (hs' : s.resumeYjsJoin i = some (s', out)) : Follows s s' ∧ PresenceStep s e s' := by
  obtain ⟨socket, ws, role, n, get, c, hhandler, hget, ⟨failure, -, rfl, -⟩ | ⟨r, -, heq⟩⟩ :=
    s.resumeYjsJoin_cases hs'
  · exact ⟨.of_end hhandler rfl rfl rfl, .same rfl rfl rfl rfl⟩
  · cases heq
    exact ⟨.of_end hhandler rfl rfl rfl, .same rfl rfl (seat_of_data rfl rfl rfl) rfl⟩

private theorem presence_same {e : Event} (hhandlers : s'.handlers = s.handlers)
    (hnext : s'.nextHandler = s.nextHandler) (hconnected : s'.connected = s.connected)
    (hsocket : s'.nextSocket = s.nextSocket) (hdata : s'.data = s.data)
    (hpresence : s'.presence = s.presence) : Follows s s' ∧ PresenceStep s e s' :=
  ⟨.of_eq hhandlers hnext, .same hconnected hsocket (by funext k; rw [State.seat, hdata]; rfl)
    hpresence⟩

/-- **Presence**, one step at a time. -/
theorem step_presence (hstep : step lex verify s e = some s') (hundisturbed : Undisturbed e) :
    Follows s s' ∧ PresenceStep s e s' := by
  obtain ⟨out, h⟩ : ∃ out, handle lex verify s e = some (s', out) := ⟨_, step_eq_some.mp hstep⟩
  cases e with
  | connect token =>
      cases h
      exact presence_connect token
  | disconnect k =>
      rw [handle] at h
      split at h <;> cases h
      exact presence_disconnect k
  | joinWorkspace k ws userName color profile =>
      rw [handle] at h
      split at h
      · unfold State.handleJoin at h
        split at h
        · cases h
          exact presence_same rfl rfl rfl rfl rfl rfl
        · next userId huser =>
            cases h
            refine ⟨.of_suspend rfl rfl fun member hm => ?_, .same rfl rfl rfl rfl⟩
            obtain rfl := Option.some.inj hm
            exact huser
      · cases h
  | yjsJoin k n =>
      rw [handle] at h
      split at h
      · rw [← show _ = s' from congrArg Prod.fst (Option.some.inj h)]
        exact presence_yjsJoin k n
      · cases h
  | yjsLeave k n =>
      rw [handle] at h
      split at h <;> cases h
      unfold State.handleYjsLeave
      dsimp only
      split <;> exact presence_same rfl rfl rfl rfl rfl rfl
  | membershipReply i ok => exact presence_membershipReply h
  | resumeYjsJoin i => exact presence_resumeYjsJoin h
  | redisReply reply =>
      obtain rfl : reply = .ok := hundisturbed
      exact presence_redisReply h
  | wsAwareness k ws data =>
      rw [handle] at h
      split at h <;> cases h
      unfold State.handleWsAwareness
      split
      · exact ⟨.of_suspend rfl rfl fun member hm => (by cases hm), .same rfl rfl rfl rfl⟩
      · exact presence_same rfl rfl rfl rfl rfl rfl
  | presenceExpire ws => exact hundisturbed.elim
  | restart => exact hundisturbed.elim
  | _ =>
      have hsame := sameSessions_of_relayed hstep trivial
      exact presence_same hsame.handlers hsame.nextHandler hsame.connected hsame.nextSocket
        hsame.data hsame.presence

/-! ### The invariant -/

/-- **The invariant.** -/
structure PresenceInv (s : State) : Prop where
  numbered : s.Numbered
  /-- A socket that has not connected yet is nobody's and nowhere. -/
  fresh : ∀ k, s.nextSocket ≤ k → s.seat k = (none, none)
  /-- A join lists the user of its socket. -/
  own : ∀ {i x member}, s.handlers i = some x → x.pending.member = some member →
    (s.seat x.socket).1 = some member.userId
  listed : ∀ {ws userId}, s.Listed ws userId → s.Present ws userId ∨ s.Removing ws userId
  present : ∀ {ws userId}, s.Present ws userId → s.Listed ws userId ∨ s.Joining ws userId

theorem presenceInv_init (nodes : NodeId → Option DocManager.NodeRow)
    (memberships : UserId → WorkspaceId → Option Role) :
    PresenceInv (State.init nodes memberships) where
  numbered _ _ h := by cases h
  fresh _ _ := rfl
  own h := by cases h
  listed h := by
    obtain ⟨_, hmem, _⟩ := h
    cases hmem
  present h := by
    obtain ⟨_, hmem, _⟩ := h
    cases hmem

theorem present_iff {ws : WorkspaceId} {userId : UserId} :
    s.Present ws userId ↔ ∃ k ∈ s.connected, s.seat k = (some userId, some ws) := by
  simp [State.Present, State.seat]

namespace PresenceInv

variable {ws : WorkspaceId} {userId : UserId}

/-- A socket keeps its user. -/
private theorem user_step (hI : PresenceInv s) (hm : PresenceStep s e s') {k : SocketId}
    (hk : (s.seat k).1 = some userId) : (s'.seat k).1 = some userId := by
  cases hm with
  | connected u _ _ hseat _ =>
      have hne : k ≠ s.nextSocket := by
        rintro rfl
        rw [hI.fresh _ le_rfl] at hk
        cases hk
      rwa [hseat, Function.update_of_ne hne]
  | moved i j ws member _ _ _ _ _ hseat _ _ =>
      rw [hseat]
      by_cases hkj : k = j
      · subst hkj
        rwa [Function.update_self]
      · rwa [Function.update_of_ne hkj]
  | same _ _ hseat _ => rwa [hseat]
  | left _ _ _ hseat _ _ => rwa [hseat]
  | listed _ _ _ _ _ _ _ _ hseat _ => rwa [hseat]
  | removed _ _ _ _ _ _ _ _ hseat _ => rwa [hseat]

private theorem fresh_step (hI : PresenceInv s) (hm : PresenceStep s e s') (k : SocketId)
    (hk : s'.nextSocket ≤ k) : s'.seat k = (none, none) := by
  cases hm with
  | connected u _ hsocket hseat _ =>
      rw [hsocket] at hk
      rw [hseat, Function.update_of_ne (Nat.ne_of_gt hk)]
      exact hI.fresh k (Nat.le_of_succ_le hk)
  | moved i j ws member _ hhandler _ _ hsocket hseat _ _ =>
      rw [hsocket] at hk
      have hne : k ≠ j := by
        rintro rfl
        have hown := hI.own hhandler rfl
        rw [hI.fresh k hk] at hown
        cases hown
      rw [hseat, Function.update_of_ne hne]
      exact hI.fresh k hk
  | same _ hsocket hseat _ =>
      rw [hseat]
      exact hI.fresh k (hsocket ▸ hk)
  | left _ _ hsocket hseat _ _ =>
      rw [hseat]
      exact hI.fresh k (hsocket ▸ hk)
  | listed _ _ _ _ _ _ _ hsocket hseat _ =>
      rw [hseat]
      exact hI.fresh k (hsocket ▸ hk)
  | removed _ _ _ _ _ _ _ hsocket hseat _ =>
      rw [hseat]
      exact hI.fresh k (hsocket ▸ hk)

/-- Who is present now was present before, or is about to be listed. -/
private theorem present_of_step (hI : PresenceInv s) (hm : PresenceStep s e s')
    (h : s'.Present ws userId) : s.Present ws userId ∨ s'.Joining ws userId := by
  obtain ⟨k, hk, hat⟩ := present_iff.mp h
  rw [present_iff]
  cases hm with
  | connected u hconnected _ hseat _ =>
      rw [hseat] at hat
      by_cases hne : k = s.nextSocket
      · subst hne
        rw [Function.update_self, hI.fresh _ le_rfl] at hat
        cases hat
      · rw [Function.update_of_ne hne] at hat
        rw [hconnected] at hk
        exact Or.inl ⟨k, (Finset.mem_insert.mp hk).resolve_left hne, hat⟩
  | moved i j ws' member _ hhandler _ hconnected _ hseat _ hjoining =>
      rw [hseat] at hat
      rw [hconnected] at hk
      by_cases hkj : k = j
      · subst hkj
        rw [Function.update_self, hI.own hhandler rfl] at hat
        obtain ⟨huser, hws⟩ := Prod.mk.inj hat
        obtain rfl := Option.some.inj huser
        obtain rfl := Option.some.inj hws
        exact Or.inr (hjoining hI.numbered)
      · rw [Function.update_of_ne hkj] at hat
        exact Or.inl ⟨k, hk, hat⟩
  | same hconnected _ hseat _ => exact Or.inl ⟨k, hconnected ▸ hk, hseat ▸ hat⟩
  | left j hconnected _ hseat _ _ =>
      rw [hconnected] at hk
      exact Or.inl ⟨k, Finset.mem_of_mem_erase hk, hseat ▸ hat⟩
  | listed _ _ _ _ _ _ hconnected _ hseat _ => exact Or.inl ⟨k, hconnected ▸ hk, hseat ▸ hat⟩
  | removed _ _ _ _ _ _ hconnected _ hseat _ => exact Or.inl ⟨k, hconnected ▸ hk, hseat ▸ hat⟩

private theorem listed_of_eq (hpresence : s'.presence = s.presence) :
    s'.Listed ws userId ↔ s.Listed ws userId := by
  unfold State.Listed
  rw [hpresence]

/-- Who was present is so still, or about to be removed, or is not listed. -/
private theorem present_step (hI : PresenceInv s) (hm : PresenceStep s e s')
    (hsole : Sole s e s') (h : s.Present ws userId) :
    s'.Present ws userId ∨ s'.Removing ws userId ∨ s.Removing ws userId ∨
      ¬ s'.Listed ws userId := by
  obtain ⟨k, hk, hat⟩ := present_iff.mp h
  rw [present_iff]
  cases hm with
  | connected u hconnected _ hseat _ =>
      refine Or.inl ⟨k, hconnected ▸ Finset.mem_insert_of_mem hk, ?_⟩
      have hne : k ≠ s.nextSocket := by
        rintro rfl
        rw [hI.fresh _ le_rfl] at hat
        cases hat
      rwa [hseat, Function.update_of_ne hne]
  | left j hconnected _ hseat _ hremoving =>
      by_cases hkj : k = j
      · exact Or.inr (Or.inl (hremoving ws userId (hkj ▸ hat)))
      · exact Or.inl ⟨k, hconnected ▸ Finset.mem_erase.mpr ⟨hkj, hk⟩, hseat ▸ hat⟩
  | moved i j ws' member he hhandler hmember hconnected _ hseat hpresence _ =>
      subst he
      by_cases hkj : k = j
      · subst hkj
        have hown := hI.own hhandler rfl
        rw [hat] at hown
        obtain rfl := Option.some.inj hown
        by_cases hws : ws = ws'
        · subst hws
          refine Or.inl ⟨k, hconnected ▸ hk, ?_⟩
          rw [hseat, Function.update_self, hat]
        · -- the socket has left the workspace
          simp only [Sole, hhandler] at hsole
          have hold : (s.data k).workspaceId = some ws := congrArg Prod.snd hat
          rcases hsole hmember hk ws hold hws with hnot | hremoving | ⟨j, hj, hne, huser, hin⟩
          · exact Or.inr (Or.inr (Or.inr ((listed_of_eq hpresence).not.mpr hnot)))
          · exact Or.inr (Or.inr (Or.inl hremoving))
          · refine Or.inl ⟨j, hconnected ▸ hj, ?_⟩
            rw [hseat, Function.update_of_ne hne]
            exact Prod.ext huser hin
      · refine Or.inl ⟨k, hconnected ▸ hk, ?_⟩
        rwa [hseat, Function.update_of_ne hkj]
  | same hconnected _ hseat _ => exact Or.inl ⟨k, hconnected ▸ hk, hseat ▸ hat⟩
  | listed _ _ _ _ _ _ hconnected _ hseat _ => exact Or.inl ⟨k, hconnected ▸ hk, hseat ▸ hat⟩
  | removed _ _ _ _ _ _ hconnected _ hseat _ => exact Or.inl ⟨k, hconnected ▸ hk, hseat ▸ hat⟩

/-- A field is set for somebody who is present or about to be removed. -/
private theorem listed_of_step (hm : PresenceStep s e s') (hsole : Sole s e s')
    (h : s'.Listed ws userId) :
    s.Listed ws userId ∨ s.Present ws userId ∨ s.Removing ws userId := by
  cases hm with
  | listed k ws' member reply he hcommand _ _ _ hpresence =>
      subst he
      rcases (listed_of_hSet hpresence).mp h with hold | ⟨rfl, rfl⟩
      · exact Or.inl hold
      · simp only [Sole, hcommand] at hsole
        exact Or.inr hsole
  | removed k ws' userId' reply _ _ _ _ _ hpresence =>
      exact Or.inl ((listed_of_hDel hpresence).mp h).1
  | same _ _ _ hpresence => exact Or.inl ((listed_of_eq hpresence).mp h)
  | connected _ _ _ _ hpresence => exact Or.inl ((listed_of_eq hpresence).mp h)
  | left _ _ _ _ hpresence _ => exact Or.inl ((listed_of_eq hpresence).mp h)
  | moved _ _ _ _ _ _ _ _ _ _ hpresence _ => exact Or.inl ((listed_of_eq hpresence).mp h)

/-- A field is deleted for somebody who is not present or about to be listed. -/
private theorem listed_step (hm : PresenceStep s e s') (hsole : Sole s e s')
    (h : s.Listed ws userId) :
    s'.Listed ws userId ∨ ¬ s.Present ws userId ∨ s.Joining ws userId := by
  cases hm with
  | removed k ws' userId' reply he hcommand _ _ _ hpresence =>
      subst he
      by_cases hself : ws = ws' ∧ userId = userId'
      · obtain ⟨rfl, rfl⟩ := hself
        simp only [Sole, hcommand] at hsole
        exact Or.inr hsole
      · exact Or.inl ((listed_of_hDel hpresence).mpr ⟨h, hself⟩)
  | listed k ws' member reply _ _ _ _ _ hpresence =>
      exact Or.inl ((listed_of_hSet hpresence).mpr (Or.inl h))
  | same _ _ _ hpresence => exact Or.inl ((listed_of_eq hpresence).mpr h)
  | connected _ _ _ _ hpresence => exact Or.inl ((listed_of_eq hpresence).mpr h)
  | left _ _ _ _ hpresence _ => exact Or.inl ((listed_of_eq hpresence).mpr h)
  | moved _ _ _ _ _ _ _ _ _ _ hpresence _ => exact Or.inl ((listed_of_eq hpresence).mpr h)

/-- Every undisturbed step that does no harm keeps the invariant. -/
theorem step (hI : PresenceInv s) (h : Gateway.step lex verify s e = some s')
    (hundisturbed : Undisturbed e) (hsole : Sole s e s') : PresenceInv s' := by
  obtain ⟨hf, hm⟩ := step_presence h hundisturbed
  refine ⟨hf.numbered hI.numbered, hI.fresh_step hm, ?_, ?_, ?_⟩
  · intro i x' member hx' hmember
    rcases hf.members hx' hmember with ⟨x, hx, hsocket, hold⟩ | hself
    · exact hI.user_step hm (hsocket ▸ hI.own hx hold)
    · exact hI.user_step hm hself
  · intro ws userId hlisted
    have hkeep : s.Removing ws userId → s'.Present ws userId ∨ s'.Removing ws userId :=
      fun hr => Or.inr ((hf.removing hr).resolve_right fun hnot => hnot hlisted)
    have hbefore : s.Present ws userId ∨ s.Removing ws userId :=
      (listed_of_step hm hsole hlisted).elim hI.listed id
    rcases hbefore with hpresent | hremoving
    · rcases hI.present_step hm hsole hpresent with hthere | hremoving | hremoving | hnot
      · exact Or.inl hthere
      · exact Or.inr hremoving
      · exact hkeep hremoving
      · exact absurd hlisted hnot
    · exact hkeep hremoving
  · intro ws userId hpresent
    rcases hI.present_of_step hm hpresent with hold | hjoining
    · rcases hI.present hold with hlisted | hjoining
      · rcases listed_step hm hsole hlisted with hstill | hnot | hjoining
        · exact Or.inl hstill
        · exact absurd hold hnot
        · exact (hf.joining hjoining).symm
      · exact (hf.joining hjoining).symm
    · exact Or.inr hjoining

theorem presenceExact (hI : PresenceInv s) : PresenceExact s := fun hidle _ _ =>
  ⟨fun h => (hI.listed h).resolve_right (not_suspended_of_idle hidle),
    fun h => (hI.present h).resolve_right (not_suspended_of_idle hidle)⟩

end PresenceInv

/-! ### Runs -/

/-- **Presence is exact** in the runs in which no field is set or deleted, and no
socket moved, to the harm of another. -/
theorem along_presenceExact (lex : Lexical) (verify : String → Option UserId)
    (nodes : NodeId → Option DocManager.NodeRow)
    (memberships : UserId → WorkspaceId → Option Role) (es : List Event)
    (hguard : Along (step lex verify) (fun s e s' => Undisturbed e ∧ Sole s e s')
      (State.init nodes memberships) es) :
    Along (step lex verify) (fun _ _ s' => PresenceExact s') (State.init nodes memberships) es := by
  refine along_of_invariant (I := PresenceInv) ?_ (presenceInv_init nodes memberships) hguard
  intro s e s' hstep hI hguard
  have hI' := hI.step hstep hguard.1 hguard.2
  exact ⟨hI', hI'.presenceExact⟩

/-- Two users are in the workspace, and one of them leaves it. -/
def oneOfTwoLeaves : List Event :=
  joinSession 0 "token of 9" 7 0 ++ joinSession 1 "token of 8" 7 1 ++
    [.disconnect 0, .redisReply .ok, .redisReply .ok]

theorem oneOfTwoLeaves_presenceExact :
    Along (step .plain plainToken) (fun s e s' => Undisturbed e ∧ Sole s e s')
        (State.init DocManager.oneNode (members [(9, 7, .EDITOR), (8, 7, .VIEWER)]))
        oneOfTwoLeaves ∧
      Along (step .plain plainToken) (fun _ _ s' => PresenceExact s')
        (State.init DocManager.oneNode (members [(9, 7, .EDITOR), (8, 7, .VIEWER)]))
        oneOfTwoLeaves :=
  ⟨by decide +kernel, along_presenceExact .plain plainToken DocManager.oneNode
    (members [(9, 7, .EDITOR), (8, 7, .VIEWER)]) oneOfTwoLeaves (by decide +kernel)⟩

/-- A user is in the workspace with two sockets, and one of them disconnects. -/
def oneTabCloses : List Event :=
  joinSession 0 "token of 9" 7 0 ++ joinSession 1 "token of 9" 7 1 ++
    [.disconnect 0, .redisReply .ok, .redisReply .ok]

theorem oneTabCloses_notListed :
    Along (step .plain plainToken) (fun _ e _ => Undisturbed e)
        (State.init DocManager.oneNode (members [(9, 7, .EDITOR)])) oneTabCloses ∧
      ¬ Along (step .plain plainToken) (fun _ _ s' => PresenceExact s')
        (State.init DocManager.oneNode (members [(9, 7, .EDITOR)])) oneTabCloses := by
  refine ⟨by decide +kernel, fun h => ?_⟩
  have hrun : (exec (step .plain plainToken)
      (State.init DocManager.oneNode (members [(9, 7, .EDITOR)])) oneTabCloses).any (fun s =>
        s.Idle ∧ s.Present 7 9 ∧ ¬ s.Listed 7 9) = true := by
    decide +kernel
  obtain ⟨s, hs, hstate⟩ := (Option.any_eq_true _ _).mp hrun
  obtain ⟨hidle, hpresent, hnot⟩ := of_decide_eq_true hstate
  have hexact : PresenceExact s := h.state (presenceInv_init _ _).presenceExact hs
  exact hnot ((hexact hidle 7 9).mpr hpresent)

end AideepWebsocket.Gateway
