import AideepWebsocket.Gateway.Commands
import AideepWebsocket.Library.Census
import AideepWebsocket.Library.Simulation

/-!
# Every request is answered

Two messages of a client wait for an answer: `join_workspace` and `yjs:join`.  The answer is
what their handler returns, and a handler that throws returns nothing.

The books are kept by socket.  A request opens an entry, unless it is answered at once; the
entry is a suspended handler, which goes from await to await; and it is closed by an answer
or by an exception.  So requests, answers, exceptions and suspended handlers balance in
every run (`requests_balance`): no request is answered twice, and none is forgotten.

* `State.owed` — the requests of a socket whose handlers are suspended;
* `State.thrown` — those whose handlers throw in a step, or end with the process.
-/

namespace AideepWebsocket.Gateway

open Library
open DocManager (NodeRow Reply)

variable {lex : Lexical} {verify : String → Option UserId} {s s' : State} {e : Event}
  {k : SocketId} {out : List Output}

/-! ### The books -/

/-- The handler will return an answer. -/
def Pending.owes : Pending → Bool
  | .leaveRemovePresence _ _ | .leaveListPresence _ | .cacheAwareness _ _ => false
  | _ => true

/-- The handler throws if its command of Redis fails. -/
def Pending.throws : Pending → Bool
  | .joinUpsertPresence _ _ | .joinExpirePresence _ | .joinListPresence _ => true
  | _ => false

/-- The handler will return an answer to the socket. -/
def owesTo (k : SocketId) (x : Handler) : Bool := x.socket = k && x.pending.owes

/-- The requests of the socket that wait for an answer. -/
def State.owed (s : State) (k : SocketId) : ℕ := census (owesTo k) s.handlers s.nextHandler

/-- The requests of the socket. -/
def requested (k : SocketId) : Event → ℕ
  | .joinWorkspace socket .. | .yjsJoin socket _ => if socket = k then 1 else 0
  | _ => 0

/-- The answers to the socket. -/
def acked (k : SocketId) (out : List Output) : ℕ :=
  out.countP fun
    | .ack socket _ => socket = k
    | .emit _ _ => false

/-- The `getOrCreateDoc` that a handler awaits has rejected. -/
def State.loadFailed (s : State) (x : Handler) : Bool :=
  match x.pending with
  | .yjsGetOrCreateDoc _ _ _ get =>
      match (s.manager.loader.gets get).bind fun c => s.manager.awaited c.await with
      | some (.error _) => true
      | _ => false
  | _ => false

/-- The requests of the socket whose handlers throw, or end with the process. -/
def State.thrown (s : State) (k : SocketId) : Event → ℕ
  | .membershipReply h false => tally (owesTo k) (s.handlers h)
  | .resumeYjsJoin h => tally (owesTo k) ((s.handlers h).filter s.loadFailed)
  | .redisReply reply =>
      if reply = .ok then 0
      else tally (owesTo k) ((s.commands.head?.bind s.handlers).filter fun x => x.pending.throws)
  | .restart => s.owed k
  | _ => 0

/-! ### Entries -/

theorem acked_append (out out' : List Output) :
    acked k (out ++ out') = acked k out + acked k out' :=
  List.countP_append

private theorem acked_emit (recipients : Finset SocketId) (event : ServerEvent)
    (out : List Output) : acked k (.emit recipients event :: out) = acked k out := by
  simp [acked]

/-- No handler goes on. -/
private theorem owed_of_eq (hhandlers : s'.handlers = s.handlers)
    (hnext : s'.nextHandler = s.nextHandler) : s'.owed k = s.owed k := by
  rw [State.owed, hhandlers, hnext]
  rfl

/-- A handler goes on, or ends. -/
private theorem owed_of_update (hn : s.Numbered) {h : HandlerId} {x : Handler} {y : Option Handler}
    (hx : s.handlers h = some x) (hhandlers : s'.handlers = Function.update s.handlers h y)
    (hnext : s'.nextHandler = s.nextHandler) :
    s'.owed k + tally (owesTo k) (some x) = s.owed k + tally (owesTo k) y := by
  rw [State.owed, State.owed, hhandlers, hnext, ← hx]
  exact census_update (hn h x hx) y

/-- A handler is suspended. -/
private theorem owed_of_suspend {y : Option Handler}
    (hhandlers : s'.handlers = Function.update s.handlers s.nextHandler y)
    (hnext : s'.nextHandler = s.nextHandler + 1) :
    s'.owed k = s.owed k + tally (owesTo k) y := by
  rw [State.owed, State.owed, hhandlers, hnext]
  exact census_open s.nextHandler y

/-- A handler of another kind is no entry. -/
private theorem tally_of_not_owes {x : Handler} (h : x.pending.owes = false) :
    tally (owesTo k) (some x) = 0 := by
  simp [tally, owesTo, h]

/-- The entry of a socket. -/
private theorem tally_of_owes {x : Handler} (h : x.pending.owes = true) :
    tally (owesTo k) (some x) = if x.socket = k then 1 else 0 := by
  simp [tally, owesTo, h]

private theorem acked_ack (socket : SocketId) (reply : Ack) :
    acked k [.ack socket reply] = if socket = k then 1 else 0 := by
  simp [acked, List.countP_cons]

/-! ### One step -/

/-- The books after a step. -/
private def Balanced (s s' : State) (k : SocketId) (out : List Output) (requested thrown : ℕ) :
    Prop :=
  acked k out + s'.owed k + thrown = s.owed k + requested

private theorem balanced_of_eq (hout : acked k out = 0) (hhandlers : s'.handlers = s.handlers)
    (hnext : s'.nextHandler = s.nextHandler) : Balanced s s' k out 0 0 := by
  rw [Balanced, hout, owed_of_eq hhandlers hnext, Nat.zero_add]

private theorem balanced_handleJoin (s : State) (socket : SocketId) (ws : WorkspaceId)
    (userName color : String) (profile : Option String) :
    Balanced s (s.handleJoin socket ws userName color profile).1 k
      (s.handleJoin socket ws userName color profile).2 (if socket = k then 1 else 0) 0 := by
  unfold State.handleJoin Balanced
  split
  · rw [acked_ack]
    exact (Nat.add_zero _).trans (Nat.add_comm _ _)
  · next userId _ =>
      rw [owed_of_suspend (y := some ⟨socket, .joinCheckWorkspace ws
        ⟨userId, userName, color, profile⟩⟩) rfl rfl, tally_of_owes rfl]
      exact Nat.zero_add _

private theorem balanced_handleYjsJoin (s : State) (socket : SocketId) (n : NodeId) :
    Balanced s (s.handleYjsJoin socket n).1 k (s.handleYjsJoin socket n).2
      (if socket = k then 1 else 0) 0 := by
  unfold Balanced
  rcases s.handleYjsJoin_cases socket n with
    ⟨text, heq⟩ | ⟨userId, ws, -, -, ⟨-, heq⟩ | ⟨role, -, heq⟩⟩
  · rw [heq, acked_ack]
    exact (Nat.add_zero _).trans (Nat.add_comm _ _)
  · rw [heq, owed_of_suspend (y := some ⟨socket, .yjsCheckWorkspace userId ws n⟩) rfl rfl,
      tally_of_owes rfl]
    exact Nat.zero_add _
  · rw [heq, owed_of_suspend (s := s) (y := some ⟨socket, .yjsGetOrCreateDoc ws role n
      (s.manager.getOrCreateDoc n ws).1.loader.nextGet⟩) rfl rfl, tally_of_owes rfl]
    exact Nat.zero_add _

/-- A handler goes on or ends, and the books of its entry balance. -/
private theorem balanced_of_update (hn : s.Numbered) {h : HandlerId} {x : Handler}
    {y : Option Handler} {thrown : ℕ} (hx : s.handlers h = some x)
    (hhandlers : s'.handlers = Function.update s.handlers h y)
    (hnext : s'.nextHandler = s.nextHandler)
    (hbooks : acked k out + tally (owesTo k) y + thrown = tally (owesTo k) (some x)) :
    Balanced s s' k out 0 thrown := by
  have howed : s'.owed k + tally (owesTo k) (some x) = s.owed k + tally (owesTo k) y :=
    owed_of_update hn hx hhandlers hnext
  unfold Balanced
  omega

private theorem balanced_membershipReply (hn : s.Numbered) {h : HandlerId} {ok : Bool}
    (hs' : s.membershipReply h ok = some (s', out)) :
    Balanced s s' k out 0 (s.thrown k (.membershipReply h ok)) := by
  unfold State.membershipReply at hs'
  dsimp only at hs'
  split at hs'
  · next socket ws member hx =>
      cases ok with
      | false =>
          cases hs'
          refine balanced_of_update hn hx (y := none) rfl rfl ?_
          rw [State.thrown, hx]
          exact Nat.zero_add _
      | true =>
          cases hmembership : s.memberships member.userId ws with
          | none =>
              rw [hmembership] at hs'
              cases hs'
              refine balanced_of_update hn hx (y := none) rfl rfl ?_
              rw [acked_ack, tally_of_owes rfl]
              rfl
          | some role =>
              rw [hmembership] at hs'
              cases hs'
              refine balanced_of_update hn hx
                (y := some ⟨socket, .joinGetCachedAwareness ws member⟩) rfl rfl ?_
              exact Nat.zero_add _
  · next socket userId ws n hx =>
      cases ok with
      | false =>
          cases hs'
          refine balanced_of_update hn hx (y := none) rfl rfl ?_
          rw [State.thrown, hx]
          exact Nat.zero_add _
      | true =>
          cases hmembership : s.memberships userId ws with
          | none =>
              rw [hmembership] at hs'
              cases hs'
              refine balanced_of_update hn hx (y := none) rfl rfl ?_
              rw [acked_ack, tally_of_owes rfl]
              rfl
          | some role =>
              rw [hmembership] at hs'
              -- the query ends, and the load is a handler of its own
              have hclosed : (s.finish h).owed k + tally (owesTo k)
                  (some ⟨socket, .yjsCheckWorkspace userId ws n⟩) = s.owed k :=
                owed_of_update (y := none) hn hx rfl rfl
              have hopened : s'.owed k = (s.finish h).owed k + tally (owesTo k)
                  (some ⟨socket, .yjsGetOrCreateDoc ws role n
                    (s.manager.getOrCreateDoc n ws).1.loader.nextGet⟩) := by
                cases hs'
                exact owed_of_suspend rfl rfl
              have hout : out = [] := by
                cases hs'
                rfl
              rw [tally_of_owes rfl] at hclosed hopened
              rw [Balanced, hout, hopened, ← hclosed]
              exact Nat.zero_add _
  · cases hs'

private theorem balanced_resumeYjsJoin (hn : s.Numbered) {h : HandlerId}
    (hs' : s.resumeYjsJoin h = some (s', out)) :
    Balanced s s' k out 0 (s.thrown k (.resumeYjsJoin h)) := by
  obtain ⟨socket, ws, role, n, get, c, hx, hget, ⟨failure, hawaited, rfl, rfl⟩ |
    ⟨r, hawaited, heq⟩⟩ := s.resumeYjsJoin_cases hs'
  · have hfailed : s.loadFailed ⟨socket, .yjsGetOrCreateDoc ws role n get⟩ = true := by
      simp only [State.loadFailed, hget, Option.bind_some, hawaited]
    refine balanced_of_update hn hx (y := none) rfl rfl ?_
    rw [State.thrown, hx, Option.filter_some, if_pos hfailed]
    exact Nat.zero_add _
  · have hfailed : s.loadFailed ⟨socket, .yjsGetOrCreateDoc ws role n get⟩ = false := by
      simp only [State.loadFailed, hget, Option.bind_some, hawaited]
    have hthrown : s.thrown k (.resumeYjsJoin h) = 0 := by
      rw [State.thrown, hx, Option.filter_some, hfailed]
      rfl
    rw [hthrown]
    cases heq
    refine balanced_of_update hn hx (y := none) rfl rfl ?_
    rw [State.emit, acked_emit, acked_ack, tally_of_owes rfl]
    rfl

private theorem balanced_redisReply (hI : CommandsInv s) {reply : Reply}
    (hs' : s.redisReply reply = some (s', out)) :
    Balanced s s' k out 0 (s.thrown k (.redisReply reply)) := by
  cases hcommands : s.commands with
  | nil => simp [State.redisReply, hcommands] at hs'
  | cons h rest =>
      obtain ⟨⟨socket, pending⟩, hx, hawaits⟩ := hI.awaits h (hcommands ▸ List.mem_cons_self)
      have hthrown : s.thrown k (.redisReply reply) =
          if reply = .ok then 0
          else tally (owesTo k) (if pending.throws then some ⟨socket, pending⟩ else none) := by
        rw [State.thrown, hcommands, List.head?_cons, Option.bind_some, hx, Option.filter_some]
      rw [hthrown]
      -- the handler goes on to its next command, or it ends
      have hmoved {t : State} {y : Option Handler}
          (hhandlers : t.handlers = Function.update s.handlers h y)
          (hnext : t.nextHandler = s.nextHandler)
          (hbooks : acked k out + tally (owesTo k) y + (if reply = .ok then 0 else
            tally (owesTo k) (if pending.throws then some ⟨socket, pending⟩ else none)) =
              tally (owesTo k) (some ⟨socket, pending⟩)) :
          Balanced s t k out 0 (if reply = .ok then 0 else
            tally (owesTo k) (if pending.throws then some ⟨socket, pending⟩ else none)) :=
        balanced_of_update hI.numbered hx hhandlers hnext hbooks
      -- nobody waits for the handler
      have hunowed {t : State} {y : Option Handler}
          (hhandlers : t.handlers = Function.update s.handlers h y)
          (hnext : t.nextHandler = s.nextHandler) (hout : acked k out = 0)
          (hy : tally (owesTo k) y = 0) (howes : pending.owes = false)
          (hthrows : pending.throws = false) :
          Balanced s t k out 0 (if reply = .ok then 0 else
            tally (owesTo k) (if pending.throws then some ⟨socket, pending⟩ else none)) := by
        refine hmoved hhandlers hnext ?_
        rw [hout, hy, tally_of_not_owes (x := ⟨socket, pending⟩) howes, hthrows]
        cases reply <;> rfl
      simp only [State.redisReply, hcommands, hx] at hs'
      cases pending with
      | joinGetCachedAwareness ws member =>
          cases hs'
          refine hmoved (y := some ⟨socket, .joinUpsertPresence ws member⟩) rfl rfl ?_
          -- what it is shown is no answer
          have hshown (cached : Option Bytes) (s : State) : acked k (cached.toList.map fun data =>
              s.emit socket (.yjsWsAwareness ws data)) = 0 := by
            cases cached <;> rfl
          rw [hshown]
          cases reply <;> exact Nat.zero_add _
      | joinUpsertPresence ws member | joinExpirePresence ws =>
          cases reply <;> cases hs'
          · exact hmoved rfl rfl (Nat.zero_add _)
          · exact hmoved rfl rfl (Nat.zero_add _)
          · exact hmoved rfl rfl (Nat.zero_add _)
      | joinListPresence ws =>
          cases reply <;> cases hs'
          · refine hmoved (y := none) rfl rfl ?_
            rw [State.emitToRoom, acked_emit, acked_ack, tally_of_owes rfl]
            rfl
          · exact hmoved rfl rfl (Nat.zero_add _)
          · exact hmoved rfl rfl (Nat.zero_add _)
      | leaveRemovePresence ws userId =>
          cases reply <;> cases hs'
          · exact hunowed (y := some ⟨socket, .leaveListPresence ws⟩) rfl rfl rfl
              (tally_of_not_owes rfl) rfl rfl
          · exact hunowed (y := none) rfl rfl rfl rfl rfl rfl
          · exact hunowed (y := none) rfl rfl rfl rfl rfl rfl
      | leaveListPresence ws =>
          cases reply with
          | ok =>
              obtain ⟨_, _, hclean⟩ := cleanupYjs_eq (({ s with commands := rest } : State).finish h)
                socket
              cases hs'
              rw [hclean]
              exact hunowed (y := none) rfl rfl rfl rfl rfl rfl
          | _ =>
              cases hs'
              exact hunowed (y := none) rfl rfl rfl rfl rfl rfl
      | cacheAwareness ws data =>
          cases reply <;> cases hs' <;> exact hunowed (y := none) rfl rfl rfl rfl rfl rfl
      | _ => cases hawaits

private theorem acked_handleYjsSync (s : State) (socket : SocketId) (n : NodeId)
    (data : SyncMessage) : acked k (s.handleYjsSync socket n data).2 = 0 := by
  have hanswer (reply : Option SyncMessage) :
      acked k (reply.toList.map fun msg => s.emit socket (.yjsSync n msg)) = 0 := by
    cases reply <;> rfl
  unfold State.handleYjsSync
  split
  · rfl
  · dsimp only
    split
    · split
      · exact hanswer _
      · rw [acked_append, hanswer]
        rfl
    · exact hanswer _

/-- What is only passed on is no answer. -/
private theorem acked_of_relayed (hstep : handle lex verify s e = some (s', out))
    (he : e.Relayed) : acked k out = 0 := by
  cases e with
  | yjsSync socket n data =>
      rw [handle] at hstep
      split at hstep
      · rw [← show _ = out from congrArg Prod.snd (Option.some.inj hstep)]
        exact acked_handleYjsSync s socket n data
      · cases hstep
  | nodePositionLive socket payload | yjsAwareness socket n data =>
      rw [handle] at hstep
      split at hstep <;> cases hstep
      rfl
  | announce t =>
      rw [handle, State.announce] at hstep
      split at hstep
      · cases hstep
      · split at hstep
        · cases hstep
        · split at hstep <;> cases hstep
          rfl
  | manager x =>
      rw [handle] at hstep
      split at hstep
      · obtain ⟨m, -, heq⟩ := Option.map_eq_some_iff.mp hstep
        cases heq
        rfl
      · cases hstep
  | broadcast event | broadcastYjsUpdate n update | setMembership userId ws role
  | awarenessExpire ws =>
      cases hstep
      rfl
  | _ => exact he.elim

/-- **One step** keeps the books. -/
private theorem balanced_of_step (hI : CommandsInv s) (hstep : step lex verify s e = some s') :
    Balanced s s' k (outputs lex verify s e) (requested k e) (s.thrown k e) := by
  have h : handle lex verify s e = some (s', outputs lex verify s e) := step_eq_some.mp hstep
  generalize outputs lex verify s e = out at h ⊢
  cases e with
  | connect token =>
      cases h
      unfold State.handleConnection
      split <;> exact balanced_of_eq rfl rfl rfl
  | disconnect socket =>
      rw [handle] at h
      split at h <;> cases h
      rcases s.handleDisconnect_cases socket with
        ⟨ws, userId, -, -, heq⟩ | ⟨-, heq, _, _, hclean⟩
      · rw [heq, Balanced, owed_of_suspend (s := s)
          (y := some ⟨socket, .leaveRemovePresence ws userId⟩) rfl rfl, tally_of_not_owes rfl]
        exact Nat.zero_add _
      · rw [heq, hclean]
        exact balanced_of_eq rfl rfl rfl
  | joinWorkspace socket ws userName color profile =>
      rw [handle] at h
      split at h
      · have hbooks := balanced_handleJoin (k := k) s socket ws userName color profile
        rwa [Option.some.inj h] at hbooks
      · cases h
  | yjsJoin socket n =>
      rw [handle] at h
      split at h
      · have hbooks := balanced_handleYjsJoin (k := k) s socket n
        rwa [Option.some.inj h] at hbooks
      · cases h
  | membershipReply i ok => exact balanced_membershipReply hI.numbered h
  | resumeYjsJoin i => exact balanced_resumeYjsJoin hI.numbered h
  | redisReply reply => exact balanced_redisReply hI h
  | wsAwareness socket ws data =>
      rw [handle] at h
      split at h <;> cases h
      unfold State.handleWsAwareness
      split
      · rw [Balanced, State.issue, owed_of_suspend (s := s)
          (y := some ⟨socket, .cacheAwareness ws data⟩) rfl rfl, tally_of_not_owes rfl]
        exact Nat.zero_add _
      · exact balanced_of_eq rfl rfl rfl
  | yjsLeave socket n =>
      rw [handle] at h
      split at h <;> cases h
      unfold State.handleYjsLeave
      dsimp only
      split <;> exact balanced_of_eq rfl rfl rfl
  | presenceExpire ws =>
      cases h
      exact balanced_of_eq rfl rfl rfl
  | restart =>
      cases h
      have hnone : (s.restart).owed k = 0 := census_none _
      rw [Balanced, hnone]
      exact Nat.zero_add _
  | _ =>
      have hsame := sameSessions_of_relayed hstep trivial
      exact balanced_of_eq (acked_of_relayed h trivial) hsame.handlers hsame.nextHandler

/-! ### The run -/

private theorem balance_of_exec (hI : CommandsInv s) {es : List Event}
    (hes : exec (step lex verify) s es = some s') :
    acked k (trace (step lex verify) (outputs lex verify) s es) + s'.owed k +
        ((path (step lex verify) s es).map fun x => x.1.thrown k x.2).sum =
      s.owed k + (es.map (requested k)).sum := by
  induction es generalizing s with
  | nil =>
      cases hes
      exact Nat.zero_add _
  | cons e es ih =>
      rw [exec_cons, Option.bind_eq_some_iff] at hes
      obtain ⟨s₁, hstep, hes⟩ := hes
      have hfirst : acked k (outputs lex verify s e) + s₁.owed k + s.thrown k e =
          s.owed k + requested k e := balanced_of_step hI hstep
      have hrest := ih (commandsInv_of_step hI hstep) hes
      rw [trace_cons es hstep, acked_append, path_cons es hstep, List.map_cons, List.sum_cons,
        List.map_cons, List.sum_cons]
      dsimp only
      omega

/-- **The books balance**: in every run, the requests of a socket are those that have been
answered, those whose handlers have thrown, and those whose handlers are suspended. -/
theorem requests_balance (lex : Lexical) (verify : String → Option UserId)
    (nodes : NodeId → Option NodeRow) (memberships : UserId → WorkspaceId → Option Role)
    {es : List Event} {s : State} (k : SocketId)
    (hes : exec (step lex verify) (.init nodes memberships) es = some s) :
    (es.map (requested k)).sum =
      acked k (trace (step lex verify) (outputs lex verify) (.init nodes memberships) es) +
        ((path (step lex verify) (.init nodes memberships) es).map
          fun x => x.1.thrown k x.2).sum + s.owed k := by
  have hbalance := balance_of_exec (k := k) (commandsInv_init nodes memberships) hes
  have hinit : (State.init nodes memberships).owed k = 0 := rfl
  omega

/-- Two requests of one socket are answered, and a third one is not yet. -/
def threeRequests : List Event :=
  joinSession 0 "token of 9" 7 0 ++ openNode 0 1 ++ [.joinWorkspace 0 6 "" "" none]

theorem threeRequests_balance :
    ∃ s, exec (step .plain plainToken)
        (State.init DocManager.oneNode (members [(9, 7, .EDITOR)])) threeRequests = some s ∧
      (threeRequests.map (requested 0)).sum =
        acked 0 (trace (step .plain plainToken) (outputs .plain plainToken)
            (State.init DocManager.oneNode (members [(9, 7, .EDITOR)])) threeRequests) +
          ((path (step .plain plainToken)
            (State.init DocManager.oneNode (members [(9, 7, .EDITOR)])) threeRequests).map
              fun x => x.1.thrown 0 x.2).sum + s.owed 0 := by
  have hsome : (exec (step .plain plainToken)
      (State.init DocManager.oneNode (members [(9, 7, .EDITOR)])) threeRequests).isSome = true := by
    decide +kernel
  obtain ⟨s, hs⟩ := Option.isSome_iff_exists.mp hsome
  exact ⟨s, hs, requests_balance .plain plainToken _ _ 0 hs⟩

end AideepWebsocket.Gateway
