import AideepWebsocket.Gateway.Refinement
import AideepWebsocket.Gateway.Cases

/-!
# Who is admitted to a node

`client.data` and the suspended `yjs:join` handlers are what decides whether a
socket is admitted to the room of a node, and as what.  `step_sessions` lists the
steps that touch them: a connection, the answer of a membership query, the start
and the end of a `yjs:join`.  `SessionInv` follows from it: whoever is admitted
has passed a membership check, and the role found then is the one recorded.

The workspace of that check is the one the socket was in when it sent `yjs:join`.
What it has to do with the node is left to the parameter `W`, which holds of the
workspaces in which the joins of a node are sent.
-/

namespace AideepWebsocket.Gateway

open Library

variable {lex : Lexical} {verify : String → Option UserId} {s s' : State} {e : Event}

/-- The handler is a `yjs:join`. -/
def Pending.ofYjsJoin : Pending → Bool
  | .yjsCheckWorkspace _ _ _ | .yjsGetOrCreateDoc _ _ _ _ => true
  | _ => false

/-- The rooms of nodes gain no member. -/
def State.KeepsRooms (s s' : State) : Prop :=
  ∀ {n k}, k ∈ s'.rooms (.yjsRoom n) → k ∈ s.rooms (.yjsRoom n)

/-- No `yjs:join` is suspended that was not before. -/
def State.KeepsJoins (s s' : State) : Prop :=
  ∀ {h x}, s'.handlers h = some x → s.handlers h = some x ∨ x.pending.ofYjsJoin = false

/-- What a step can do to `client.data`, to the rooms of nodes and to the
suspended `yjs:join` handlers. -/
inductive SessionStep (s : State) (e : Event) (s' : State) : Prop
  | same (hdata : s'.data = s.data) (hpassed : s'.passed = s.passed)
      (hnext : s'.nextSocket = s.nextSocket) (hrooms : s.KeepsRooms s') (hjoins : s.KeepsJoins s')
  | connect (userId : UserId)
      (hdata : s'.data = Function.update s.data s.nextSocket
        { s.data s.nextSocket with userId := some userId })
      (hpassed : s'.passed = s.passed) (hnext : s'.nextSocket = s.nextSocket + 1)
      (hrooms : s.KeepsRooms s') (hjoins : s.KeepsJoins s')
  /-- `join_workspace` has found a member. -/
  | joined (socket : SocketId) (userId : UserId) (ws : WorkspaceId) (role : Role)
      (hdata : s'.data = Function.update s.data socket
        { s.data socket with workspaceId := some ws })
      (hpassed : s'.passed = s.passed ++ [(userId, ws, role)])
      (hnext : s'.nextSocket = s.nextSocket) (hrooms : s.KeepsRooms s') (hjoins : s.KeepsJoins s')
  /-- A `yjs:join` queries the membership. -/
  | query (socket : SocketId) (userId : UserId) (ws : WorkspaceId) (n : NodeId)
      (he : e = .yjsJoin socket n) (huser : (s.data socket).userId = some userId)
      (hws : (s.data socket).workspaceId = some ws) (hdata : s'.data = s.data)
      (hpassed : s'.passed = s.passed) (hnext : s'.nextSocket = s.nextSocket)
      (hrooms : s.KeepsRooms s')
      (hjoins : ∀ {h x}, s'.handlers h = some x → s.handlers h = some x ∨
        x = ⟨socket, .yjsCheckWorkspace userId ws n⟩)
  /-- The query has answered, and the answer is cached. -/
  | cached (h : HandlerId) (socket : SocketId) (userId : UserId) (ws : WorkspaceId) (n : NodeId)
      (membership : Option Role)
      (hhandler : s.handlers h = some ⟨socket, .yjsCheckWorkspace userId ws n⟩)
      (hdata : s'.data = Function.update s.data socket { s.data socket with
        membershipCache := Function.update (s.data socket).membershipCache ws (some membership) })
      (hpassed : s'.passed = s.passed ++ membership.toList.map fun role => (userId, ws, role))
      (hnext : s'.nextSocket = s.nextSocket) (hrooms : s.KeepsRooms s')
      (hjoins : ∀ {h x}, s'.handlers h = some x → s.handlers h = some x ∨
        ∃ role get, membership = some role ∧ x = ⟨socket, .yjsGetOrCreateDoc ws role n get⟩)
  /-- A `yjs:join` with a cached membership asks for the document at once. -/
  | load (socket : SocketId) (ws : WorkspaceId) (role : Role) (n : NodeId) (get : ℕ)
      (he : e = .yjsJoin socket n) (hws : (s.data socket).workspaceId = some ws)
      (hcache : (s.data socket).membershipCache ws = some (some role)) (hdata : s'.data = s.data)
      (hpassed : s'.passed = s.passed) (hnext : s'.nextSocket = s.nextSocket)
      (hrooms : s.KeepsRooms s')
      (hjoins : ∀ {h x}, s'.handlers h = some x → s.handlers h = some x ∨
        x = ⟨socket, .yjsGetOrCreateDoc ws role n get⟩)
  /-- A `yjs:join` completes. -/
  | admitted (h : HandlerId) (socket : SocketId) (ws : WorkspaceId) (role : Role) (n : NodeId)
      (get : ℕ) (he : e = .resumeYjsJoin h)
      (hhandler : s.handlers h = some ⟨socket, .yjsGetOrCreateDoc ws role n get⟩)
      (hdata : s'.data = Function.update s.data socket { s.data socket with
        yjsReadOnly := Function.update (s.data socket).yjsReadOnly n
          (some (decide (role = .VIEWER))) })
      (hpassed : s'.passed = s.passed) (hnext : s'.nextSocket = s.nextSocket)
      (hrooms : ∀ {m k}, k ∈ s'.rooms (.yjsRoom m) →
        k ∈ s.rooms (.yjsRoom m) ∨ k = socket ∧ m = n)
      (hjoins : s.KeepsJoins s')

/-! ### Rooms and handlers -/

private theorem rooms_join_of_ne (s : State) (socket : SocketId) {room : Room} {n : NodeId}
    (hroom : room ≠ .yjsRoom n) :
    (s.join socket room).rooms (.yjsRoom n) = s.rooms (.yjsRoom n) :=
  Function.update_of_ne hroom.symm ..

private theorem rooms_join {socket k : SocketId} {n m : NodeId}
    (hk : k ∈ (s.join socket (.yjsRoom n)).rooms (.yjsRoom m)) :
    k ∈ s.rooms (.yjsRoom m) ∨ k = socket ∧ m = n := by
  by_cases hm : m = n
  · subst hm
    have hself : (s.join socket (.yjsRoom m)).rooms (.yjsRoom m) =
        insert socket (s.rooms (.yjsRoom m)) := Function.update_self ..
    rw [hself, Finset.mem_insert] at hk
    rcases hk with rfl | hk
    · exact Or.inr ⟨rfl, rfl⟩
    · exact Or.inl hk
  · have hother : (s.join socket (.yjsRoom n)).rooms (.yjsRoom m) = s.rooms (.yjsRoom m) :=
      Function.update_of_ne (by simpa using hm) ..
    rw [hother] at hk
    exact Or.inl hk

private theorem handlers_finish {h i : HandlerId} {x : Handler}
    (hx : (s.finish h).handlers i = some x) : s.handlers i = some x := by
  unfold State.finish at hx
  by_cases hi : i = h
  · simp [hi] at hx
  · simpa [hi] using hx

private theorem keepsJoins_update {p : Pending} (hp : p.ofYjsJoin = false) (h : HandlerId)
    (socket : SocketId) {i : HandlerId} {x : Handler}
    (hx : Function.update s.handlers h (some ⟨socket, p⟩) i = some x) :
    s.handlers i = some x ∨ x.pending.ofYjsJoin = false := by
  by_cases hi : i = h
  · rw [hi, Function.update_self] at hx
    cases hx
    exact Or.inr hp
  · rw [Function.update_of_ne hi] at hx
    exact Or.inl hx

private theorem joins_suspend {p : Pending} (socket : SocketId) {i : HandlerId} {x : Handler}
    (hx : (s.suspend socket p).handlers i = some x) :
    s.handlers i = some x ∨ x = ⟨socket, p⟩ := by
  unfold State.suspend at hx
  by_cases hi : i = s.nextHandler
  · simp only [hi, Function.update_self] at hx
    cases hx
    exact Or.inr rfl
  · exact Or.inl (by simpa [hi] using hx)

/-- The step touches none of it. -/
private theorem SessionStep.of_eq (hdata : s'.data = s.data) (hpassed : s'.passed = s.passed)
    (hnext : s'.nextSocket = s.nextSocket) (hrooms : s'.rooms = s.rooms)
    (hhandlers : s'.handlers = s.handlers) : SessionStep s e s' :=
  .same hdata hpassed hnext (fun hk => hrooms ▸ hk) (fun hx => Or.inl (hhandlers ▸ hx))

/-- A handler that is no `yjs:join` goes on or ends. -/
private theorem SessionStep.of_handler {h : HandlerId} {y : Option Handler}
    (hy : ∀ x, y = some x → x.pending.ofYjsJoin = false)
    (hdata : s'.data = s.data) (hpassed : s'.passed = s.passed)
    (hnext : s'.nextSocket = s.nextSocket) (hrooms : s'.rooms = s.rooms)
    (hhandlers : s'.handlers = Function.update s.handlers h y) : SessionStep s e s' := by
  refine .same hdata hpassed hnext (fun hk => hrooms ▸ hk) (fun {i x} hx => ?_)
  rw [hhandlers] at hx
  by_cases hi : i = h
  · rw [hi, Function.update_self] at hx
    exact Or.inr (hy x hx)
  · rw [Function.update_of_ne hi] at hx
    exact Or.inl hx

/-! ### The steps -/

private theorem sessions_disconnect (s : State) (socket : SocketId) :
    SessionStep s e (s.handleDisconnect socket) := by
  have hrooms : ∀ {n k}, k ∈ (s.rooms (.yjsRoom n)).erase socket → k ∈ s.rooms (.yjsRoom n) :=
    fun hk => Finset.mem_of_mem_erase hk
  rcases s.handleDisconnect_cases socket with
    ⟨ws, userId, -, -, heq⟩ | ⟨-, heq, manager, yjsRooms, hclean⟩
  · rw [heq]
    exact .same rfl rfl rfl hrooms fun {i x} hx =>
      keepsJoins_update (p := .leaveRemovePresence ws userId) rfl s.nextHandler socket hx
  · rw [heq, hclean]
    exact .same rfl rfl rfl hrooms Or.inl

private theorem sessions_yjsJoin (s : State) (socket : SocketId) (n : NodeId) :
    SessionStep s (.yjsJoin socket n) (s.handleYjsJoin socket n).1 := by
  rcases s.handleYjsJoin_cases socket n with
    ⟨text, heq⟩ | ⟨userId, ws, huser, hws, ⟨hcache, heq⟩ | ⟨role, hcache, heq⟩⟩
  · rw [heq]
    exact .of_eq rfl rfl rfl rfl rfl
  · rw [heq]
    exact .query socket userId ws n rfl huser hws rfl rfl rfl id fun hx => joins_suspend socket hx
  · rw [heq]
    exact .load socket ws role n _ rfl hws hcache rfl rfl rfl id fun hx => joins_suspend socket hx

private theorem sessions_membershipReply {h : HandlerId} {ok : Bool} {out : List Output}
    (hs' : s.membershipReply h ok = some (s', out)) :
    SessionStep s e s' := by
  rcases s.membershipReply_cases hs' with
    ⟨socket, ws, member, hhandler, ⟨-, rfl, -⟩ | ⟨role, -, hrole, -, rfl⟩⟩ |
    ⟨socket, userId, ws, n, hhandler, ⟨-, rfl, -⟩ | ⟨-, -, rfl, -⟩ | ⟨role, -, -, -, rfl⟩⟩
  · exact .of_handler (y := none) (h := h) (fun x hx => by cases hx) rfl rfl rfl rfl rfl
  · refine .joined socket member.userId ws role rfl rfl rfl ?_ ?_
    · intro n k hk
      have hk' : k ∈ (State.join (s.join socket (.workspace ws)) socket
          (.yjsWsRoom ws)).rooms (.yjsRoom n) := hk
      rwa [rooms_join_of_ne _ socket (by simp), rooms_join_of_ne s socket (by simp)] at hk'
    · exact fun {i x} hx => keepsJoins_update
        (p := .joinGetCachedAwareness ws member) rfl h socket hx
  · exact .of_handler (y := none) (h := h) (fun x hx => by cases hx) rfl rfl rfl rfl rfl
  · exact .cached h socket userId ws n none hhandler rfl (List.append_nil _).symm rfl id
      fun {i x} hx => Or.inl (handlers_finish (s := s) (h := h) hx)
  · refine .cached h socket userId ws n (some role) hhandler rfl rfl rfl id fun {i x} hx => ?_
    rcases joins_suspend socket hx with hx | hx
    · exact Or.inl (handlers_finish (s := s) (h := h) hx)
    · exact Or.inr ⟨role, _, rfl, hx⟩

private theorem sessions_redisReply {reply : DocManager.Reply} {out : List Output}
    (hs' : s.redisReply reply = some (s', out)) : SessionStep s e s' := by
  obtain ⟨h, rest, -, ⟨rfl, -⟩ | ⟨socket, pending, -, -, hcase⟩⟩ := s.redisReply_cases hs'
  · exact .of_eq rfl rfl rfl rfl rfl
  · rcases hcase with ⟨next, hnext, rfl⟩ | ⟨-, -, rfl, manager, yjsRooms, hclean⟩ | ⟨-, rfl⟩
    · refine .of_handler (y := some ⟨socket, next⟩) (h := h) (fun x hx => ?_) rfl rfl rfl rfl rfl
      obtain rfl := Option.some.inj hx
      cases pending <;> cases hnext <;> rfl
    · rw [hclean]
      exact .of_handler (y := none) (h := h) (fun x hx => by cases hx) rfl rfl rfl rfl rfl
    · exact .of_handler (y := none) (h := h) (fun x hx => by cases hx) rfl rfl rfl rfl rfl

private theorem sessions_resumeYjsJoin {h : HandlerId} {out : List Output}
    (hs' : s.resumeYjsJoin h = some (s', out)) : SessionStep s (.resumeYjsJoin h) s' := by
  obtain ⟨socket, ws, role, n, get, c, hhandler, -, ⟨failure, -, rfl, -⟩ | ⟨r, -, heq⟩⟩ :=
    s.resumeYjsJoin_cases hs'
  · exact .of_handler (y := none) (h := h) (fun x hx => by cases hx) rfl rfl rfl rfl rfl
  · cases heq
    refine .admitted h socket ws role n get rfl hhandler rfl rfl rfl ?_ ?_
    · exact fun hk => rooms_join hk
    · exact fun hx => Or.inl (handlers_finish (s := s) (h := h) hx)

/-- **The sessions.** -/
theorem step_sessions (hstep : step lex verify s e = some s') : SessionStep s e s' := by
  obtain ⟨out, h⟩ : ∃ out, handle lex verify s e = some (s', out) := ⟨_, step_eq_some.mp hstep⟩
  cases e with
  | connect token =>
      cases h
      unfold State.handleConnection
      split
      · exact .of_eq rfl rfl rfl rfl rfl
      · next userId _ =>
          refine .connect userId rfl rfl rfl ?_ fun hx => Or.inl hx
          intro n k hk
          rwa [← rooms_join_of_ne s s.nextSocket (by simp : Room.userRoom userId ≠ _)]
  | disconnect socket =>
      rw [handle] at h
      split at h <;> cases h
      exact sessions_disconnect s socket
  | yjsJoin socket n =>
      rw [handle] at h
      split at h
      · have hs' := congrArg Prod.fst (Option.some.inj h)
        rw [← show _ = s' from hs']
        exact sessions_yjsJoin s socket n
      · cases h
  | membershipReply h' ok => exact sessions_membershipReply h
  | resumeYjsJoin h' => exact sessions_resumeYjsJoin h
  | redisReply reply => exact sessions_redisReply h
  | joinWorkspace socket ws userName color profile =>
      rw [handle] at h
      split at h
      · unfold State.handleJoin at h
        split at h <;> cases h
        · exact .of_eq rfl rfl rfl rfl rfl
        · next userId _ =>
            refine .of_handler (y := some ⟨socket, .joinCheckWorkspace ws
              ⟨userId, userName, color, profile⟩⟩) (fun x hx => ?_) rfl rfl rfl rfl rfl
            cases hx
            rfl
      · cases h
  | wsAwareness socket ws data =>
      rw [handle] at h
      split at h <;> cases h
      unfold State.handleWsAwareness
      split
      · exact .of_handler (y := some ⟨socket, .cacheAwareness ws data⟩)
          (fun x hx => by cases hx; rfl) rfl rfl rfl rfl rfl
      · exact .of_eq rfl rfl rfl rfl rfl
  | yjsLeave socket n =>
      rw [handle] at h
      split at h <;> cases h
      have hrooms : s.KeepsRooms (s.leave socket (.yjsRoom n)) := by
        intro m k hk
        by_cases hm : m = n
        · subst hm
          have hself : (s.leave socket (.yjsRoom m)).rooms (.yjsRoom m) =
              (s.rooms (.yjsRoom m)).erase socket := Function.update_self ..
          rw [hself] at hk
          exact Finset.mem_of_mem_erase hk
        · have hother : (s.leave socket (.yjsRoom n)).rooms (.yjsRoom m) = s.rooms (.yjsRoom m) :=
            Function.update_of_ne (by simpa using hm) ..
          rwa [hother] at hk
      unfold State.handleYjsLeave
      dsimp only
      split <;> exact .same rfl rfl rfl (fun hk => hrooms hk) fun hx => Or.inl hx
  | restart =>
      cases h
      exact .same rfl rfl rfl (fun hk => absurd hk (Finset.notMem_empty _))
        fun hx => by cases hx
  | presenceExpire ws =>
      cases h
      exact .of_eq rfl rfl rfl rfl rfl
  | _ =>
      have hsame := sameSessions_of_relayed hstep trivial
      exact .of_eq hsame.data hsame.passed hsame.nextSocket hsame.rooms hsame.handlers

/-! ### The invariant -/

/-- A membership check of the socket's user for the workspace has found `role`. -/
def State.Passed (s : State) (socket : SocketId) (ws : WorkspaceId) (role : Role) : Prop :=
  ∃ userId, (s.data socket).userId = some userId ∧ (userId, ws, role) ∈ s.passed

/-- The user of the socket has passed a membership check for the workspace, and
its right to write to the node has been recorded from the role found then. -/
def State.Cleared (s : State) (socket : SocketId) (n : NodeId) (ws : WorkspaceId) : Prop :=
  ∃ role, s.Passed socket ws role ∧
    (s.data socket).yjsReadOnly n = some (decide (role = .VIEWER))

/-- **Admission.**  `W n` holds of the workspaces in which joins of `n` are
sent. -/
structure SessionInv (W : NodeId → WorkspaceId → Prop) (s : State) : Prop where
  fresh : ∀ {k}, s.nextSocket ≤ k → (s.data k).userId = none
  cache : ∀ {k ws role}, (s.data k).membershipCache ws = some (some role) → s.Passed k ws role
  query : ∀ {h k userId ws n}, s.handlers h = some ⟨k, .yjsCheckWorkspace userId ws n⟩ →
    W n ws ∧ (s.data k).userId = some userId
  load : ∀ {h k ws role n get}, s.handlers h = some ⟨k, .yjsGetOrCreateDoc ws role n get⟩ →
    W n ws ∧ s.Passed k ws role
  recorded : ∀ {k n}, (s.data k).yjsReadOnly n ≠ none → ∃ ws, W n ws ∧ s.Cleared k n ws
  room : ∀ {k n}, k ∈ s.rooms (.yjsRoom n) → (s.data k).yjsReadOnly n ≠ none

theorem sessionInv_init (W : NodeId → WorkspaceId → Prop)
    (nodes : NodeId → Option DocManager.NodeRow)
    (memberships : UserId → WorkspaceId → Option Role) :
    SessionInv W (State.init nodes memberships) where
  fresh _ := rfl
  cache h := by cases h
  query h := by cases h
  load h := by cases h
  recorded h := absurd rfl h
  room h := absurd h (Finset.notMem_empty _)

namespace SessionInv

variable {W : NodeId → WorkspaceId → Prop}

theorem user (hS : SessionInv W s) {k : SocketId} {ws : WorkspaceId} {role : Role}
    (h : s.Passed k ws role) : k < s.nextSocket := by
  obtain ⟨userId, huser, -⟩ := h
  by_contra hlt
  rw [hS.fresh (Nat.le_of_not_lt hlt)] at huser
  cases huser

/-- The invariant survives a step after which no user is another, no check is
forgotten, and everything new in the caches, the handlers, the records and the
rooms is accounted for. -/
private theorem of_data (hS : SessionInv W s)
    (hfresh : ∀ {k}, s'.nextSocket ≤ k → (s'.data k).userId = none)
    (huser : ∀ {k userId}, (s.data k).userId = some userId → (s'.data k).userId = some userId)
    (hpassed : ∀ {x}, x ∈ s.passed → x ∈ s'.passed)
    (hcache : ∀ {k ws role}, (s'.data k).membershipCache ws = some (some role) →
      (s.data k).membershipCache ws = some (some role) ∨ s'.Passed k ws role)
    (hhandlers : ∀ {h x}, s'.handlers h = some x → s.handlers h = some x ∨
      x.pending.ofYjsJoin = false ∨
      (∃ k userId ws n, x = ⟨k, .yjsCheckWorkspace userId ws n⟩ ∧ W n ws ∧
        (s'.data k).userId = some userId) ∨
      ∃ k ws role n get, x = ⟨k, .yjsGetOrCreateDoc ws role n get⟩ ∧ W n ws ∧
        s'.Passed k ws role)
    (hrecorded : ∀ {k n}, (s'.data k).yjsReadOnly n = (s.data k).yjsReadOnly n ∨
      ∃ ws, W n ws ∧ s'.Cleared k n ws)
    (hroom : ∀ {k n}, k ∈ s'.rooms (.yjsRoom n) → k ∈ s.rooms (.yjsRoom n) ∨
      (s'.data k).yjsReadOnly n ≠ none) : SessionInv W s' := by
  have hkeep : ∀ {k ws role}, s.Passed k ws role → s'.Passed k ws role := by
    rintro k ws role ⟨userId, hu, hmem⟩
    exact ⟨userId, huser hu, hpassed hmem⟩
  have hkeepRecord : ∀ {k n}, (s.data k).yjsReadOnly n ≠ none →
      ∃ ws, W n ws ∧ s'.Cleared k n ws := by
    intro k n hflag
    obtain ⟨ws, hW, role, hp, hflag'⟩ := hS.recorded hflag
    rcases hrecorded (k := k) (n := n) with hsame | hnew
    · exact ⟨ws, hW, role, hkeep hp, hsame.trans hflag'⟩
    · exact hnew
  refine ⟨hfresh, fun h => ?_, fun h => ?_, fun h => ?_, fun h => ?_, fun h => ?_⟩
  · rcases hcache h with h | h
    · exact hkeep (hS.cache h)
    · exact h
  · rcases hhandlers h with h | h | ⟨k, userId, ws, n, heq, hW, hu⟩ |
      ⟨k, ws, role, n, get, heq, -⟩
    · exact ⟨(hS.query h).1, huser (hS.query h).2⟩
    · cases h
    · cases heq
      exact ⟨hW, hu⟩
    · cases heq
  · rcases hhandlers h with h | h | ⟨k, userId, ws, n, heq, -⟩ |
      ⟨k, ws, role, n, get, heq, hW, hp⟩
    · exact ⟨(hS.load h).1, hkeep (hS.load h).2⟩
    · cases h
    · cases heq
    · cases heq
      exact ⟨hW, hp⟩
  · rename_i k n
    rcases hrecorded (k := k) (n := n) with hsame | hnew
    · exact hkeepRecord (by rwa [hsame] at h)
    · exact hnew
  · rcases hroom h with h | h
    · obtain ⟨ws, -, role, -, hflag⟩ := hkeepRecord (hS.room h)
      rw [hflag]
      simp
    · exact h

/-- The same for a step that changes the data of one socket. -/
private theorem of_update (hS : SessionInv W s) {socket : SocketId} {d : ClientData}
    (hdata : s'.data = Function.update s.data socket d)
    (huser : d.userId = (s.data socket).userId) (hnext : s'.nextSocket = s.nextSocket)
    (hpassed : ∀ {x}, x ∈ s.passed → x ∈ s'.passed)
    (hcache : ∀ {ws role}, d.membershipCache ws = some (some role) →
      (s.data socket).membershipCache ws = some (some role) ∨ s'.Passed socket ws role)
    (hhandlers : ∀ {h x}, s'.handlers h = some x → s.handlers h = some x ∨
      x.pending.ofYjsJoin = false ∨
      ∃ k ws role n get, x = ⟨k, .yjsGetOrCreateDoc ws role n get⟩ ∧ W n ws ∧
        s'.Passed k ws role)
    (hrecorded : ∀ {n}, d.yjsReadOnly n = (s.data socket).yjsReadOnly n ∨
      ∃ ws, W n ws ∧ s'.Cleared socket n ws)
    (hroom : ∀ {k n}, k ∈ s'.rooms (.yjsRoom n) → k ∈ s.rooms (.yjsRoom n) ∨
      k = socket ∧ d.yjsReadOnly n ≠ none) : SessionInv W s' := by
  have hself : s'.data socket = d := by rw [hdata, Function.update_self]
  have hother : ∀ {k}, k ≠ socket → s'.data k = s.data k := fun hk => by
    rw [hdata, Function.update_of_ne hk]
  have hsame : ∀ k, (s'.data k).userId = (s.data k).userId := by
    intro k
    by_cases hk : k = socket
    · rw [hk, hself, huser]
    · rw [hother hk]
  refine hS.of_data (fun {k} hk => ?_) (fun {k u} hu => ?_) hpassed (fun {k ws role} hc => ?_)
    (fun hx => ?_) (fun {k n} => ?_) (fun hk => ?_)
  · rw [hsame]
    exact hS.fresh (hnext ▸ hk)
  · rwa [hsame]
  · by_cases hk : k = socket
    · rw [hk, hself] at hc
      rw [hk]
      exact hcache hc
    · rw [hother hk] at hc
      exact Or.inl hc
  · exact (hhandlers hx).imp_right (Or.imp_right Or.inr)
  · by_cases hk : k = socket
    · rw [hk, hself]
      exact hrecorded
    · exact Or.inl (by rw [hother hk])
  · rcases hroom hk with hk | ⟨rfl, hflag⟩
    · exact Or.inl hk
    · exact Or.inr (by rwa [hself])

/-- Every step keeps it, if joins are sent in the workspaces of `W`. -/
theorem step (hS : SessionInv W s) (h : Gateway.step lex verify s e = some s')
    (hW : ∀ {socket n ws}, e = .yjsJoin socket n → (s.data socket).workspaceId = some ws →
      W n ws) : SessionInv W s' := by
  cases step_sessions h with
  | same hdata hpassed hnext hrooms hjoins =>
      refine hS.of_data (fun hk => ?_) (fun hu => ?_) (fun hx => hpassed ▸ hx) (fun hc => ?_)
        (fun hx => (hjoins hx).imp_right Or.inl) (Or.inl (by rw [hdata])) fun hk =>
          Or.inl (hrooms hk)
      · rw [hdata]
        exact hS.fresh (hnext ▸ hk)
      · rwa [hdata]
      · rw [hdata] at hc
        exact Or.inl hc
  | connect userId hdata hpassed hnext hrooms hjoins =>
      -- a new socket has no data yet
      have hother : ∀ {k}, k ≠ s.nextSocket → s'.data k = s.data k := fun hk => by
        rw [hdata, Function.update_of_ne hk]
      have hself : s'.data s.nextSocket = { s.data s.nextSocket with userId := some userId } := by
        rw [hdata, Function.update_self]
      refine hS.of_data (fun {k} hk => ?_) (fun {k u} hu => ?_) (fun hx => hpassed ▸ hx)
        (fun {k ws role} hc => ?_) (fun hx => (hjoins hx).imp_right Or.inl) (fun {k n} => ?_)
        fun hk => Or.inl (hrooms hk)
      · rw [hnext] at hk
        rw [hother (Nat.lt_of_succ_le hk).ne']
        exact hS.fresh (Nat.lt_of_succ_le hk).le
      · have hk : k ≠ s.nextSocket := by
          rintro rfl
          rw [hS.fresh le_rfl] at hu
          cases hu
        rwa [hother hk]
      · by_cases hk : k = s.nextSocket
        · rw [hk, hself] at hc
          exact Or.inl (hk ▸ hc)
        · rw [hother hk] at hc
          exact Or.inl hc
      · by_cases hk : k = s.nextSocket
        · exact Or.inl (by rw [hk, hself])
        · exact Or.inl (by rw [hother hk])
  | joined socket userId ws role hdata hpassed hnext hrooms hjoins =>
      exact hS.of_update hdata rfl hnext (fun hx => hpassed ▸ List.mem_append_left _ hx) Or.inl
        (fun hx => (hjoins hx).imp_right Or.inl) (Or.inl rfl) fun hk => Or.inl (hrooms hk)
  | query socket userId ws n he huser hws hdata hpassed hnext hrooms hjoins =>
      refine hS.of_data (fun hk => ?_) (fun hu => ?_) (fun hx => hpassed ▸ hx) (fun hc => ?_)
        (fun hx => ?_) (Or.inl (by rw [hdata])) fun hk => Or.inl (hrooms hk)
      · rw [hdata]
        exact hS.fresh (hnext ▸ hk)
      · rwa [hdata]
      · rw [hdata] at hc
        exact Or.inl hc
      · rcases hjoins hx with hx | hx
        · exact Or.inl hx
        · exact Or.inr (Or.inr (Or.inl ⟨socket, userId, ws, n, hx, hW he hws, by rwa [hdata]⟩))
  | cached h socket userId ws n membership hhandler hdata hpassed hnext hrooms hjoins =>
      obtain ⟨hWn, huser⟩ := hS.query hhandler
      have huser' : (s'.data socket).userId = some userId := by
        rw [hdata, Function.update_self]
        exact huser
      -- the role that the query has found is the one cached
      have hfound : ∀ {role}, membership = some role → s'.Passed socket ws role := by
        rintro role rfl
        exact ⟨userId, huser', hpassed ▸ by simp⟩
      refine hS.of_update hdata rfl hnext (fun hx => hpassed ▸ List.mem_append_left _ hx)
        (fun {ws' role} hc => ?_) (fun hx => ?_) (Or.inl rfl) fun hk => Or.inl (hrooms hk)
      · have hc : Function.update (s.data socket).membershipCache ws (some membership) ws' =
            some (some role) := hc
        by_cases hws : ws' = ws
        · subst hws
          rw [Function.update_self] at hc
          exact Or.inr (hfound (Option.some.inj hc))
        · rw [Function.update_of_ne hws] at hc
          exact Or.inl hc
      · rcases hjoins hx with hx | ⟨role, get, hrole, hx⟩
        · exact Or.inl hx
        · exact Or.inr (Or.inr ⟨socket, ws, role, n, get, hx, hWn, hfound hrole⟩)
  | load socket ws role n get he hws hcache hdata hpassed hnext hrooms hjoins =>
      have hpassed' : s'.Passed socket ws role := by
        obtain ⟨userId, huser, hmem⟩ := hS.cache hcache
        exact ⟨userId, by rwa [hdata], by rwa [hpassed]⟩
      refine hS.of_data (fun hk => ?_) (fun hu => ?_) (fun hx => hpassed ▸ hx) (fun hc => ?_)
        (fun hx => ?_) (Or.inl (by rw [hdata])) fun hk => Or.inl (hrooms hk)
      · rw [hdata]
        exact hS.fresh (hnext ▸ hk)
      · rwa [hdata]
      · rw [hdata] at hc
        exact Or.inl hc
      · rcases hjoins hx with hx | hx
        · exact Or.inl hx
        · exact Or.inr (Or.inr (Or.inr ⟨socket, ws, role, n, get, hx, hW he hws, hpassed'⟩))
  | admitted h socket ws role n get he hhandler hdata hpassed hnext hrooms hjoins =>
      obtain ⟨hWn, userId, huser, hmem⟩ := hS.load hhandler
      have hself : s'.data socket = { s.data socket with
          yjsReadOnly := Function.update (s.data socket).yjsReadOnly n
            (some (decide (role = .VIEWER))) } := by
        rw [hdata, Function.update_self]
      have hcleared : s'.Cleared socket n ws := by
        refine ⟨role, ⟨userId, ?_, by rwa [hpassed]⟩, ?_⟩
        · rw [hself]
          exact huser
        · rw [hself]
          exact Function.update_self ..
      refine hS.of_update hdata rfl hnext (fun hx => hpassed ▸ hx) Or.inl
        (fun hx => (hjoins hx).imp_right Or.inl) (fun {m} => ?_) (fun {k m} hk => ?_)
      · by_cases hm : m = n
        · exact Or.inr ⟨ws, hm ▸ hWn, hm ▸ hcleared⟩
        · exact Or.inl (Function.update_of_ne hm ..)
      · rcases hrooms hk with hk | ⟨rfl, rfl⟩
        · exact Or.inl hk
        · exact Or.inr ⟨rfl, by simp⟩

end SessionInv

end AideepWebsocket.Gateway
