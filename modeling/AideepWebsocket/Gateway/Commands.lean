import AideepWebsocket.Gateway.Cases
import AideepWebsocket.Gateway.Presence

/-!
# The commands under way

A handler that awaits Redis has one command under way.  `queue` is the handlers that
do, in the order of their commands; `CommandsInv` says that every command belongs to
one of them.

* An event puts at most one command at the end of the queue (`issues`).
* A reply takes the oldest from it; its handler may go on to its next command
  (`Handler.next`), behind all others.

So a command waits for those before it and for no other, whatever happens meanwhile.
-/

namespace AideepWebsocket.Gateway

open Library
open DocManager (Reply)

variable {lex : Lexical} {verify : String → Option UserId} {s s' : State} {e : Event}
  {h : HandlerId} {x : Handler}

/-! ### Definitions -/

namespace State

/-- The handlers that await Redis, in the order of their commands. -/
def queue (s : State) : List (HandlerId × Handler) :=
  s.commands.filterMap fun h => (s.handlers h).map fun x => (h, x)

/-- The command that an event issues, other than a reply. -/
def issues (s : State) : Event → Option (HandlerId × Handler)
  | .disconnect socket =>
      (s.data socket).workspaceId.bind fun workspaceId =>
        (s.data socket).userId.map fun userId =>
          (s.nextHandler, ⟨socket, .leaveRemovePresence workspaceId userId⟩)
  | .membershipReply h true =>
      match s.handlers h with
      | some ⟨socket, .joinCheckWorkspace workspaceId member⟩ =>
          (s.memberships member.userId workspaceId).map fun _ =>
            (h, ⟨socket, .joinGetCachedAwareness workspaceId member⟩)
      | _ => none
  | .wsAwareness socket workspaceId data =>
      if (s.data socket).workspaceId = some workspaceId then
        some (s.nextHandler, ⟨socket, .cacheAwareness workspaceId data⟩)
      else none
  | _ => none

end State

/-- **Every command under way** is that of a handler that awaits it. -/
structure CommandsInv (s : State) : Prop where
  numbered : s.Numbered
  nodup : s.commands.Nodup
  awaits : ∀ h ∈ s.commands, ∃ x, s.handlers h = some x ∧ x.pending.awaitsRedis = true

theorem commandsInv_init (nodes : NodeId → Option DocManager.NodeRow)
    (memberships : UserId → WorkspaceId → Option Role) :
    CommandsInv (State.init nodes memberships) where
  numbered _ _ hx := by cases hx
  nodup := List.nodup_nil
  awaits _ hmem := by cases hmem

namespace CommandsInv

/-! ### The queue -/

/-- A new handler has no command yet. -/
theorem fresh (hI : CommandsInv s) : s.nextHandler ∉ s.commands := by
  intro hmem
  obtain ⟨x, hx, -⟩ := hI.awaits _ hmem
  exact absurd (hI.numbered _ x hx) (lt_irrefl _)

/-- Nor has a handler that awaits something else. -/
theorem notMem (hI : CommandsInv s) (hx : s.handlers h = some x)
    (hawaits : x.pending.awaitsRedis = false) : h ∉ s.commands := by
  intro hmem
  obtain ⟨x', hx', hawaits'⟩ := hI.awaits _ hmem
  obtain rfl := Option.some.inj (hx.symm.trans hx')
  rw [hawaits] at hawaits'
  cases hawaits'

theorem queue_congr {commands : List HandlerId}
    (hkept : ∀ i ∈ commands, s'.handlers i = s.handlers i) :
    (commands.filterMap fun i => (s'.handlers i).map fun x => (i, x)) =
      commands.filterMap fun i => (s.handlers i).map fun x => (i, x) :=
  List.filterMap_congr fun i hi => by rw [hkept i hi]

theorem handler_of_mem_queue (hmem : (h, x) ∈ s.queue) : s.handlers h = some x := by
  obtain ⟨i, -, hi⟩ := List.mem_filterMap.mp hmem
  obtain ⟨x', hx', heq⟩ := Option.map_eq_some_iff.mp hi
  cases heq
  exact hx'

/-- The queue has one entry for each command. -/
theorem map_fst_queue (hI : CommandsInv s) : s.queue.map Prod.fst = s.commands := by
  have hall : ∀ commands : List HandlerId, (∀ i ∈ commands, ∃ x, s.handlers i = some x) →
      (commands.filterMap fun i => (s.handlers i).map fun x => (i, x)).map Prod.fst =
        commands := by
    intro commands
    induction commands with
    | nil => exact fun _ => rfl
    | cons i commands ih =>
        intro hcommands
        obtain ⟨⟨x, hx⟩, hrest⟩ := List.forall_mem_cons.mp hcommands
        rw [List.filterMap_cons, hx, Option.map_some]
        exact congrArg (i :: ·) (ih hrest)
  refine hall s.commands fun i hi => ?_
  obtain ⟨x, hx, -⟩ := hI.awaits i hi
  exact ⟨x, hx⟩

/-- The commands under way stay, and one may be issued. -/
theorem of_issued (hI : CommandsInv s) {issued : Option (HandlerId × Handler)}
    (hnumbered : s'.Numbered) (hcommands : s'.commands = s.commands ++ issued.toList.map Prod.fst)
    (hissued : ∀ p ∈ issued, p.1 ∉ s.commands ∧ s'.handlers p.1 = some p.2 ∧
      p.2.pending.awaitsRedis = true)
    (hkept : ∀ i ∈ s.commands, s'.handlers i = s.handlers i) :
    CommandsInv s' ∧ s'.queue = s.queue ++ issued.toList := by
  cases issued with
  | none =>
      have hcommands : s'.commands = s.commands := hcommands.trans (List.append_nil _)
      refine ⟨⟨hnumbered, hcommands ▸ hI.nodup, fun i hi => ?_⟩, ?_⟩
      · rw [hcommands] at hi
        rw [hkept i hi]
        exact hI.awaits i hi
      · rw [State.queue, hcommands, queue_congr hkept]
        exact (List.append_nil _).symm
  | some p =>
      obtain ⟨h, x⟩ := p
      obtain ⟨hnew, hx, hawaits⟩ := hissued _ rfl
      have hcommands : s'.commands = s.commands ++ [h] := hcommands
      refine ⟨⟨hnumbered, ?_, fun i hi => ?_⟩, ?_⟩
      · rw [hcommands, ← List.concat_eq_append]
        exact hI.nodup.concat hnew
      · rw [hcommands] at hi
        rcases List.mem_append.mp hi with hi | hi
        · rw [hkept i hi]
          exact hI.awaits i hi
        · obtain rfl := List.mem_singleton.mp hi
          exact ⟨x, hx, hawaits⟩
      · rw [State.queue, hcommands, List.filterMap_append, queue_congr hkept]
        simp [State.queue, hx]

/-- The commands and their handlers stay. -/
theorem of_kept (hI : CommandsInv s) (hnumbered : s'.Numbered)
    (hcommands : s'.commands = s.commands)
    (hkept : ∀ i ∈ s.commands, s'.handlers i = s.handlers i) :
    CommandsInv s' ∧ s'.queue = s.queue ++ (none : Option (HandlerId × Handler)).toList :=
  hI.of_issued hnumbered (hcommands.trans (List.append_nil _).symm) (fun _ hp => by cases hp) hkept

/-- The oldest command is answered, and its handler may issue the next one. -/
theorem of_answered (hI : CommandsInv s) {rest : List HandlerId} {y : Option Handler}
    (holdest : s.commands = h :: rest) (hnumbered : s'.Numbered)
    (hcommands : s'.commands = rest ++ y.toList.map fun _ => h)
    (hy : ∀ x' ∈ y, s'.handlers h = some x' ∧ x'.pending.awaitsRedis = true)
    (hkept : ∀ i, i ≠ h → s'.handlers i = s.handlers i) :
    CommandsInv s' ∧ ∃ x waiting, s.handlers h = some x ∧ s.queue = (h, x) :: waiting ∧
      s'.queue = waiting ++ (y.map fun x' => (h, x')).toList := by
  obtain ⟨hnew, hnodup⟩ := List.nodup_cons.mp (holdest ▸ hI.nodup)
  obtain ⟨x, hx, -⟩ := hI.awaits h (holdest ▸ List.mem_cons_self)
  let t : State := { s with commands := rest }
  have hT : CommandsInv t :=
    ⟨hI.numbered, hnodup, fun i hi => hI.awaits i (holdest ▸ List.mem_cons_of_mem h hi)⟩
  have hqueue : s.queue = (h, x) :: t.queue := by
    rw [State.queue, holdest, List.filterMap_cons, hx]
    rfl
  have hcommands : s'.commands = t.commands ++ (y.map fun x' => (h, x')).toList.map Prod.fst := by
    cases y <;> exact hcommands
  have hissued : ∀ p ∈ y.map fun x' => (h, x'), p.1 ∉ t.commands ∧
      s'.handlers p.1 = some p.2 ∧ p.2.pending.awaitsRedis = true := by
    intro p hp
    obtain ⟨x', hx', rfl⟩ := Option.map_eq_some_iff.mp hp
    exact ⟨hnew, hy x' hx'⟩
  obtain ⟨hI', hqueue'⟩ := hT.of_issued hnumbered hcommands hissued fun i hi =>
    hkept i (ne_of_mem_of_not_mem hi hnew)
  exact ⟨hI', x, t.queue, hx, hqueue, hqueue'⟩

/-- A handler is suspended at something other than a command. -/
theorem of_suspend (hI : CommandsInv s) {y : Option Handler}
    (hhandlers : s'.handlers = Function.update s.handlers s.nextHandler y)
    (hnext : s'.nextHandler = s.nextHandler + 1) (hcommands : s'.commands = s.commands) :
    CommandsInv s' ∧ s'.queue = s.queue ++ (none : Option (HandlerId × Handler)).toList := by
  refine hI.of_kept (hI.numbered.of_suspend hhandlers hnext) hcommands fun i hi => ?_
  rw [hhandlers, Function.update_of_ne (ne_of_mem_of_not_mem hi hI.fresh)]

/-- A handler is suspended at a command. -/
theorem of_suspend_issue (hI : CommandsInv s)
    (hhandlers : s'.handlers = Function.update s.handlers s.nextHandler (some x))
    (hnext : s'.nextHandler = s.nextHandler + 1)
    (hcommands : s'.commands = s.commands ++ [s.nextHandler])
    (hawaits : x.pending.awaitsRedis = true) :
    CommandsInv s' ∧ s'.queue = s.queue ++ (some (s.nextHandler, x)).toList := by
  refine hI.of_issued (hI.numbered.of_suspend hhandlers hnext) hcommands ?_ fun i hi => ?_
  · intro p hp
    obtain rfl := Option.some.inj hp
    exact ⟨hI.fresh, by rw [hhandlers, Function.update_self], hawaits⟩
  · rw [hhandlers, Function.update_of_ne (ne_of_mem_of_not_mem hi hI.fresh)]

/-- A handler that awaits something else ends. -/
theorem of_finish (hI : CommandsInv s) (hx : s.handlers h = some x)
    (hawaits : x.pending.awaitsRedis = false)
    (hhandlers : s'.handlers = Function.update s.handlers h none)
    (hnext : s'.nextHandler = s.nextHandler) (hcommands : s'.commands = s.commands) :
    CommandsInv s' ∧ s'.queue = s.queue ++ (none : Option (HandlerId × Handler)).toList := by
  refine hI.of_kept (hI.numbered.of_update hx hhandlers hnext) hcommands fun i hi => ?_
  rw [hhandlers, Function.update_of_ne (ne_of_mem_of_not_mem hi (hI.notMem hx hawaits))]

end CommandsInv

/-! ### One step -/

private theorem queue_disconnect (hI : CommandsInv s) (k : SocketId) :
    CommandsInv (s.handleDisconnect k) ∧
      (s.handleDisconnect k).queue = s.queue ++ (s.issues (.disconnect k)).toList := by
  rcases s.handleDisconnect_cases k with
    ⟨ws, userId, hws, huser, heq⟩ | ⟨hnone, heq, _, _, hclean⟩
  · have hissues : s.issues (.disconnect k) =
        some (s.nextHandler, ⟨k, .leaveRemovePresence ws userId⟩) := by
      simp only [State.issues, hws, huser, Option.bind_some, Option.map_some]
    rw [heq, hissues]
    exact hI.of_suspend_issue rfl rfl rfl rfl
  · have hissues : s.issues (.disconnect k) = none := by
      rw [Option.eq_none_iff_forall_not_mem]
      intro p hp
      obtain ⟨ws, hws, hp⟩ := Option.bind_eq_some_iff.mp hp
      obtain ⟨userId, huser, -⟩ := Option.map_eq_some_iff.mp hp
      exact hnone ws userId hws huser
    rw [heq, hissues, hclean]
    exact hI.of_kept hI.numbered rfl fun _ _ => rfl

private theorem queue_yjsJoin (hI : CommandsInv s) (k : SocketId) (n : NodeId) :
    CommandsInv (s.handleYjsJoin k n).1 ∧ (s.handleYjsJoin k n).1.queue =
      s.queue ++ (none : Option (HandlerId × Handler)).toList := by
  rcases s.handleYjsJoin_cases k n with
    ⟨text, heq⟩ | ⟨userId, ws, -, -, ⟨-, heq⟩ | ⟨role, -, heq⟩⟩
  · rw [heq]
    exact hI.of_kept hI.numbered rfl fun _ _ => rfl
  · rw [heq]
    exact hI.of_suspend rfl rfl rfl
  · rw [heq]
    exact hI.of_suspend rfl rfl rfl

private theorem queue_membershipReply (hI : CommandsInv s) {ok : Bool} {out : List Output}
    (hs' : s.membershipReply h ok = some (s', out)) :
    CommandsInv s' ∧ s'.queue = s.queue ++ (s.issues (.membershipReply h ok)).toList := by
  rcases s.membershipReply_cases hs' with
    ⟨k, ws, member, hhandler, hcase⟩ | ⟨k, userId, ws, n, hhandler, hcase⟩
  · have hissues : s.issues (.membershipReply h ok) =
        if ok then (s.memberships member.userId ws).map fun _ =>
          (h, ⟨k, .joinGetCachedAwareness ws member⟩) else none := by
      cases ok with
      | false => rfl
      | true => simp only [State.issues, hhandler, if_true]
    rw [hissues]
    rcases hcase with ⟨hend, rfl, -⟩ | ⟨role, rfl, hrole, -, rfl⟩
    · have hnone : (if ok then (s.memberships member.userId ws).map fun _ =>
          (h, (⟨k, .joinGetCachedAwareness ws member⟩ : Handler)) else none) = none := by
        split
        · next hok => rw [hend hok, Option.map_none]
        · rfl
      rw [hnone]
      exact hI.of_finish hhandler rfl rfl rfl rfl
    · have hnew := hI.notMem hhandler rfl
      rw [if_pos rfl, hrole]
      refine hI.of_issued (hI.numbered.of_update hhandler rfl rfl) rfl ?_ fun i hi => ?_
      · intro p hp
        obtain rfl := Option.some.inj hp
        exact ⟨hnew, Function.update_self .., rfl⟩
      · exact Function.update_of_ne (ne_of_mem_of_not_mem hi hnew) _ _
  · have hissues : s.issues (.membershipReply h ok) = none := by
      cases ok with
      | false => rfl
      | true => simp only [State.issues, hhandler]
    rw [hissues]
    rcases hcase with ⟨-, rfl, -⟩ | ⟨-, -, rfl, -⟩ | ⟨role, -, -, -, rfl⟩
    · exact hI.of_finish hhandler rfl rfl rfl rfl
    · exact hI.of_finish hhandler rfl rfl rfl rfl
    · -- the query has ended, and the load is a handler of its own
      obtain ⟨hT, hqueue⟩ : CommandsInv (s.finish h) ∧ (s.finish h).queue = s.queue ++ [] :=
        hI.of_finish hhandler rfl rfl rfl rfl
      rw [List.append_nil] at hqueue
      rw [← hqueue]
      exact hT.of_suspend rfl rfl rfl

private theorem queue_resumeYjsJoin (hI : CommandsInv s) {out : List Output}
    (hs' : s.resumeYjsJoin h = some (s', out)) :
    CommandsInv s' ∧ s'.queue = s.queue ++ (none : Option (HandlerId × Handler)).toList := by
  obtain ⟨k, ws, role, n, get, c, hhandler, -, ⟨failure, -, rfl, -⟩ | ⟨r, -, heq⟩⟩ :=
    s.resumeYjsJoin_cases hs'
  · exact hI.of_finish hhandler rfl rfl rfl rfl
  · cases heq
    exact hI.of_finish hhandler rfl rfl rfl rfl

/-- **A step other than a reply** leaves the queue as it is, up to the command that it
issues. -/
theorem queue_of_step (hI : CommandsInv s) (hstep : step lex verify s e = some s')
    (hreply : ∀ reply, e ≠ .redisReply reply) (hrestart : e ≠ .restart) :
    CommandsInv s' ∧ s'.queue = s.queue ++ (s.issues e).toList := by
  obtain ⟨out, h⟩ : ∃ out, handle lex verify s e = some (s', out) := ⟨_, step_eq_some.mp hstep⟩
  cases e with
  | connect token =>
      cases h
      unfold State.handleConnection
      split <;> exact hI.of_kept hI.numbered rfl fun _ _ => rfl
  | disconnect k =>
      rw [handle] at h
      split at h <;> cases h
      exact queue_disconnect hI k
  | joinWorkspace k ws userName color profile =>
      rw [handle] at h
      split at h
      · unfold State.handleJoin at h
        split at h <;> cases h
        · exact hI.of_kept hI.numbered rfl fun _ _ => rfl
        · exact hI.of_suspend rfl rfl rfl
      · cases h
  | yjsJoin k n =>
      rw [handle] at h
      split at h
      · rw [← show _ = s' from congrArg Prod.fst (Option.some.inj h)]
        exact queue_yjsJoin hI k n
      · cases h
  | yjsLeave k n =>
      rw [handle] at h
      split at h <;> cases h
      unfold State.handleYjsLeave
      dsimp only
      split <;> exact hI.of_kept hI.numbered rfl fun _ _ => rfl
  | membershipReply i ok => exact queue_membershipReply hI h
  | resumeYjsJoin i => exact queue_resumeYjsJoin hI h
  | wsAwareness k ws data =>
      rw [handle] at h
      split at h <;> cases h
      show CommandsInv (s.handleWsAwareness k ws data) ∧ _ = s.queue ++ Option.toList
        (if (s.data k).workspaceId = some ws then _ else none)
      unfold State.handleWsAwareness
      split
      · exact hI.of_suspend_issue rfl rfl rfl rfl
      · exact hI.of_kept hI.numbered rfl fun _ _ => rfl
  | presenceExpire ws =>
      cases h
      exact hI.of_kept hI.numbered rfl fun _ _ => rfl
  | redisReply reply => exact absurd rfl (hreply reply)
  | restart => exact absurd rfl hrestart
  | _ =>
      obtain ⟨_, _, _, _, rfl, -⟩ := eq_of_relayed hstep trivial
      exact hI.of_kept hI.numbered rfl fun _ _ => rfl

/-- **An answer** takes the oldest command from the queue; if it is no error, the next
command of its handler goes behind all others. -/
theorem queue_of_resume (hI : CommandsInv s) {rest : List HandlerId} {socket : SocketId}
    {pending : Pending} (answer : Answer) (holdest : s.commands = h :: rest)
    (hx : s.handlers h = some ⟨socket, pending⟩) :
    CommandsInv (({ s with commands := rest } : State).resume h socket answer pending).1 ∧
      ∃ waiting, s.queue = (h, ⟨socket, pending⟩) :: waiting ∧ (answer ≠ .error →
        (({ s with commands := rest } : State).resume h socket answer pending).1.queue = waiting ++
          (pending.next.map fun pending' => (h, ⟨socket, pending'⟩)).toList) := by
  have hmoves {t : State} {y : Option Handler}
      (hhandlers : t.handlers = Function.update s.handlers h y)
      (hnext : t.nextHandler = s.nextHandler)
      (hcommands : t.commands = rest ++ y.toList.map fun _ => h)
      (hy : ∀ x' ∈ y, x'.pending.awaitsRedis = true) :
      CommandsInv t ∧ ∃ waiting, s.queue = (h, ⟨socket, pending⟩) :: waiting ∧
        t.queue = waiting ++ (y.map fun x' => (h, x')).toList := by
    obtain ⟨hI', x, waiting, hx', hqueue, hqueue'⟩ := hI.of_answered holdest
      (hI.numbered.of_update hx hhandlers hnext) hcommands
      (fun x' hx' => ⟨by rw [hhandlers, Function.update_self]; exact hx', hy x' hx'⟩)
      (fun i hi => by rw [hhandlers, Function.update_of_ne hi])
    obtain rfl := Option.some.inj (hx.symm.trans hx')
    exact ⟨hI', waiting, hqueue, hqueue'⟩
  -- the handler ends, as it does after an error and after its last command
  have hend {t : State} (hlast : answer ≠ .error → pending.next = none)
      (hhandlers : t.handlers = Function.update s.handlers h none)
      (hnext : t.nextHandler = s.nextHandler) (hcommands : t.commands = rest) :
      CommandsInv t ∧ ∃ waiting, s.queue = (h, ⟨socket, pending⟩) :: waiting ∧
        (answer ≠ .error → t.queue = waiting ++
          (pending.next.map fun pending' => (h, ⟨socket, pending'⟩)).toList) := by
    obtain ⟨hI', waiting, hqueue, hqueue'⟩ := hmoves hhandlers hnext
      (hcommands.trans (List.append_nil _).symm) (fun _ hy => by cases hy)
    exact ⟨hI', waiting, hqueue, fun hok => by rw [hlast hok]; exact hqueue'⟩
  have hagain {t : State} (pending' : Pending) (hpending : pending.next = some pending')
      (hawaits : pending'.awaitsRedis = true)
      (hhandlers : t.handlers = Function.update s.handlers h (some ⟨socket, pending'⟩))
      (hnext : t.nextHandler = s.nextHandler) (hcommands : t.commands = rest ++ [h]) :
      CommandsInv t ∧ ∃ waiting, s.queue = (h, ⟨socket, pending⟩) :: waiting ∧
        (answer ≠ .error → t.queue = waiting ++
          (pending.next.map fun pending' => (h, ⟨socket, pending'⟩)).toList) := by
    obtain ⟨hI', waiting, hqueue, hqueue'⟩ := hmoves hhandlers hnext hcommands
      (fun _ hy => Option.some.inj hy ▸ hawaits)
    exact ⟨hI', waiting, hqueue, fun _ => by rw [hpending]; exact hqueue'⟩
  unfold State.resume
  cases pending with
  | joinGetCachedAwareness ws member => exact hagain _ rfl rfl rfl rfl rfl
  | joinUpsertPresence ws member =>
      dsimp only
      split
      · next herror => exact hend (absurd herror) rfl rfl rfl
      · exact hagain _ rfl rfl rfl rfl rfl
  | joinExpirePresence ws =>
      dsimp only
      split
      · next herror => exact hend (absurd herror) rfl rfl rfl
      · exact hagain _ rfl rfl rfl rfl rfl
  | joinListPresence ws => cases answer <;> exact hend (fun _ => rfl) rfl rfl rfl
  | leaveRemovePresence ws userId =>
      dsimp only
      split
      · next herror => exact hend (absurd herror) rfl rfl rfl
      · exact hagain _ rfl rfl rfl rfl rfl
  | leaveListPresence ws =>
      obtain ⟨_, _, hclean⟩ := cleanupYjs_eq (({ s with commands := rest } : State).finish h) socket
      dsimp only
      rw [hclean]
      cases answer <;> exact hend (fun _ => rfl) rfl rfl rfl
  | cacheAwareness ws data => exact hend (fun _ => rfl) rfl rfl rfl
  | _ =>
      obtain ⟨x, hx', hawaits⟩ := hI.awaits h (holdest ▸ List.mem_cons_self)
      obtain rfl := Option.some.inj (hx.symm.trans hx')
      cases hawaits

/-- **A reply** takes the oldest command from the queue; if it is no failure, the next
command of its handler goes behind all others. -/
theorem queue_of_reply (hI : CommandsInv s) {reply : Reply}
    (hstep : step lex verify s (.redisReply reply) = some s') :
    CommandsInv s' ∧ ∃ h socket pending waiting, s.commands.head? = some h ∧
      s.handlers h = some ⟨socket, pending⟩ ∧ s.queue = (h, ⟨socket, pending⟩) :: waiting ∧
      (reply = .ok → s'.queue = waiting ++
        (pending.next.map fun pending' => (h, ⟨socket, pending'⟩)).toList) := by
  have hs' : s.redisReply reply = some (s', outputs lex verify s (.redisReply reply)) :=
    step_eq_some.mp hstep
  cases hcommands : s.commands with
  | nil =>
      rw [State.redisReply, hcommands] at hs'
      cases hs'
  | cons h rest =>
      obtain ⟨⟨socket, pending⟩, hx, -⟩ := hI.awaits h (hcommands ▸ List.mem_cons_self)
      rw [redisReply_of_command reply hcommands hx] at hs'
      rw [← show _ = s' from congrArg Prod.fst (Option.some.inj hs')]
      -- what Redis has made of its keys does not matter here
      obtain ⟨presence, awareness, hexecuted⟩ : ∃ presence awareness,
          (if reply.executed then s.executeCommand pending else s) =
            { s with presence := presence, awareness := awareness } := by
        split
        · exact executeCommand_eq s pending
        · exact ⟨_, _, rfl⟩
      rw [hexecuted]
      have hT : CommandsInv { s with presence := presence, awareness := awareness } :=
        ⟨hI.numbered, hI.nodup, hI.awaits⟩
      obtain ⟨hI', waiting, hqueue, hqueue'⟩ := queue_of_resume hT
        (if reply = .ok then s.answerTo pending else .error) hcommands hx
      refine ⟨hI', h, socket, pending, waiting, rfl, hx, hqueue, fun hok => hqueue' ?_⟩
      rw [if_pos hok]
      exact answerTo_ne_error s pending

theorem commandsInv_of_step (hI : CommandsInv s) (hstep : step lex verify s e = some s') :
    CommandsInv s' := by
  by_cases hreply : ∃ reply, e = .redisReply reply
  · obtain ⟨reply, rfl⟩ := hreply
    exact (queue_of_reply hI hstep).1
  · by_cases hrestart : e = .restart
    · subst hrestart
      cases hstep
      exact ⟨fun _ _ hx => (by cases hx), List.nodup_nil, fun _ hmem => (by cases hmem)⟩
    · exact (queue_of_step hI hstep (fun reply he => hreply ⟨reply, he⟩) hrestart).1

/-- The invariant holds in every reachable state. -/
theorem commandsInv_of_reachable {nodes : NodeId → Option DocManager.NodeRow}
    {memberships : UserId → WorkspaceId → Option Role}
    (h : Reachable (step lex verify) (State.init nodes memberships) s) : CommandsInv s :=
  h.invariant (commandsInv_init nodes memberships) fun _ _ _ hstep hI =>
    commandsInv_of_step hI hstep

/-! ### What Redis holds -/

private theorem store_membershipReply {ok : Bool} {out : List Output}
    (hs' : s.membershipReply h ok = some (s', out)) :
    s'.presence = s.presence ∧ s'.awareness = s.awareness := by
  rcases s.membershipReply_cases hs' with
    ⟨k, ws, member, -, ⟨-, rfl, -⟩ | ⟨role, -, -, -, rfl⟩⟩ |
    ⟨k, userId, ws, n, -, ⟨-, rfl, -⟩ | ⟨-, -, rfl, -⟩ | ⟨role, -, -, -, rfl⟩⟩ <;>
    exact ⟨rfl, rfl⟩

/-- Only replies and expiring keys change what Redis holds. -/
theorem store_of_step (hstep : step lex verify s e = some s')
    (hreply : ∀ reply, e ≠ .redisReply reply) :
    (∀ ws, e ≠ .presenceExpire ws → s'.presence ws = s.presence ws) ∧
      ∀ ws, e ≠ .awarenessExpire ws → s'.awareness ws = s.awareness ws := by
  have hsame {t : State} (hpresence : t.presence = s.presence)
      (hawareness : t.awareness = s.awareness) :
      (∀ ws, e ≠ .presenceExpire ws → t.presence ws = s.presence ws) ∧
        ∀ ws, e ≠ .awarenessExpire ws → t.awareness ws = s.awareness ws :=
    ⟨fun ws _ => congrFun hpresence ws, fun ws _ => congrFun hawareness ws⟩
  obtain ⟨out, h⟩ : ∃ out, handle lex verify s e = some (s', out) := ⟨_, step_eq_some.mp hstep⟩
  cases e with
  | connect token =>
      cases h
      unfold State.handleConnection
      split <;> exact hsame rfl rfl
  | disconnect k =>
      rw [handle] at h
      split at h <;> cases h
      rcases s.handleDisconnect_cases k with ⟨ws, userId, -, -, heq⟩ | ⟨-, heq, _, _, hclean⟩
      · rw [heq]
        exact hsame rfl rfl
      · rw [heq, hclean]
        exact hsame rfl rfl
  | joinWorkspace k ws userName color profile =>
      rw [handle] at h
      split at h
      · unfold State.handleJoin at h
        split at h <;> cases h <;> exact hsame rfl rfl
      · cases h
  | yjsJoin k n =>
      rw [handle] at h
      split at h
      · rw [← show _ = s' from congrArg Prod.fst (Option.some.inj h)]
        rcases s.handleYjsJoin_cases k n with
          ⟨text, heq⟩ | ⟨userId, ws, -, -, ⟨-, heq⟩ | ⟨role, -, heq⟩⟩ <;>
          rw [heq] <;> exact hsame rfl rfl
      · cases h
  | yjsLeave k n =>
      rw [handle] at h
      split at h <;> cases h
      unfold State.handleYjsLeave
      dsimp only
      split <;> exact hsame rfl rfl
  | membershipReply i ok => exact hsame (store_membershipReply h).1 (store_membershipReply h).2
  | resumeYjsJoin i =>
      rw [handle] at h
      obtain ⟨k, ws, role, n, get, c, -, -, ⟨failure, -, rfl, -⟩ | ⟨r, -, heq⟩⟩ :=
        s.resumeYjsJoin_cases h
      · exact hsame rfl rfl
      · cases heq
        exact hsame rfl rfl
  | wsAwareness k ws data =>
      rw [handle] at h
      split at h <;> cases h
      unfold State.handleWsAwareness
      split <;> exact hsame rfl rfl
  | presenceExpire ws =>
      cases h
      refine ⟨fun ws' hne => ?_, fun _ _ => rfl⟩
      exact Function.update_of_ne (fun heq : ws' = ws => hne (heq ▸ rfl)) _ _
  | awarenessExpire ws =>
      cases h
      refine ⟨fun _ _ => rfl, fun ws' hne => ?_⟩
      exact Function.update_of_ne (fun heq : ws' = ws => hne (heq ▸ rfl)) _ _
  | redisReply reply => exact absurd rfl (hreply reply)
  | restart =>
      cases h
      exact hsame rfl rfl
  | _ =>
      obtain ⟨_, _, _, _, rfl, hawareness⟩ := eq_of_relayed hstep trivial
      exact hsame rfl (hawareness fun _ heq => (by cases heq))

end AideepWebsocket.Gateway
