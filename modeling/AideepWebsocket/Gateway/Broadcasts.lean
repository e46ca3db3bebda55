import AideepWebsocket.Gateway.Commands
import AideepWebsocket.Library.Pipeline

/-!
# The last presence broadcast

`join_workspace` and `handleDisconnect` change the presence hash of a workspace, read
all of it, and emit what they have read.  Other handlers may have changed the hash by
the time at which that is emitted.

`presenceProtocol` is the commands of a workspace as a protocol of clients that read
back what they have changed, and `Simulates` relates the gateway on the wire to its
pipeline: the handlers that await Redis are its commands, those with an answer under
way the executed ones, and the hash is its store.  Each step of the wire is a step of
the pipeline, or none (`simulates_of_step`), and what the pipeline shows is what the
gateway broadcasts.  So the last broadcast is the hash, once nobody is changing or
reading it any more (`lastPresenceState_eq`).
-/

namespace AideepWebsocket.Gateway

open Library
open DocManager (Reply)

variable {lex : Lexical} {verify : String → Option UserId} {ws : WorkspaceId} {s s' : State}

/-! ### Changing, and reading back -/

namespace Pending

/-- The command changes the hash. -/
def writesPresence (ws : WorkspaceId) : Pending → Bool
  | .joinUpsertPresence workspaceId _ | .leaveRemovePresence workspaceId _ => workspaceId = ws
  | _ => false

/-- The command stands between the change and the `hGetAll`. -/
def owesPresence (ws : WorkspaceId) : Pending → Bool
  | .joinExpirePresence workspaceId => workspaceId = ws
  | _ => false

/-- The command is the `hGetAll`, and its answer is broadcast. -/
def readsPresence (ws : WorkspaceId) : Pending → Bool
  | .joinListPresence workspaceId | .leaveListPresence workspaceId => workspaceId = ws
  | _ => false

/-- What the command makes of the hash. -/
def presenceEffect (ws : WorkspaceId) : Pending → List PresenceMember → List PresenceMember
  | .joinUpsertPresence workspaceId member, members =>
      if workspaceId = ws then State.hSet members member else members
  | .leaveRemovePresence workspaceId userId, members =>
      if workspaceId = ws then State.hDel members userId else members
  | _, members => members

end Pending

/-- The commands of the gateway, as far as they concern the hash of the workspace. -/
def presenceProtocol (ws : WorkspaceId) : Protocol Pending (List PresenceMember) where
  effect := Pending.presenceEffect ws
  next := Pending.next
  writes := Pending.writesPresence ws
  owes := Pending.owesPresence ws
  reads := Pending.readsPresence ws
  effect_eq := by
    intro c members hwrites
    cases c with
    | joinUpsertPresence _ _ => exact if_neg (of_decide_eq_false hwrites)
    | leaveRemovePresence _ _ => exact if_neg (of_decide_eq_false hwrites)
    | _ => rfl
  exists_next := by
    intro c hc
    cases c with
    | joinUpsertPresence _ _ => exact ⟨_, rfl, Or.inl (hc.resolve_right nofun)⟩
    | joinExpirePresence _ => exact ⟨_, rfl, Or.inr (hc.resolve_left nofun)⟩
    | leaveRemovePresence _ _ => exact ⟨_, rfl, Or.inr (hc.resolve_right nofun)⟩
    | _ => rcases hc with hc | hc <;> cases hc

/-- A handler that changes the hash, or is going to read it, has not ended. -/
def State.Updating (s : State) (ws : WorkspaceId) : Prop :=
  s.Suspended fun x => (x.pending.writesPresence ws || x.pending.owesPresence ws ||
    x.pending.readsPresence ws) = true

/-- A handler that starts, or goes on after its membership check, owes no read. -/
theorem owes_of_issues {e : Event} {p : HandlerId × Handler} (hissues : s.issues e = some p) :
    (presenceProtocol ws).owes p.2.pending = false ∧
      (presenceProtocol ws).reads p.2.pending = false := by
  cases e with
  | disconnect socket =>
      obtain ⟨_, -, hp⟩ := Option.bind_eq_some_iff.mp hissues
      obtain ⟨_, -, rfl⟩ := Option.map_eq_some_iff.mp hp
      exact ⟨rfl, rfl⟩
  | membershipReply h ok =>
      cases ok with
      | false => cases hissues
      | true =>
          simp only [State.issues] at hissues
          split at hissues
          · obtain ⟨_, -, rfl⟩ := Option.map_eq_some_iff.mp hissues
            exact ⟨rfl, rfl⟩
          · cases hissues
  | wsAwareness socket workspaceId data =>
      simp only [State.issues] at hissues
      split at hissues <;> cases hissues
      exact ⟨rfl, rfl⟩
  | _ => cases hissues

/-! ### Broadcasts -/

/-- The members that are broadcast in the workspace. -/
def presenceStates (ws : WorkspaceId) (out : List Output) : List (List PresenceMember) :=
  out.filterMap fun
    | .emit _ (.presenceState workspaceId members) => if workspaceId = ws then some members else none
    | _ => none

theorem presenceStates_append (out out' : List Output) :
    presenceStates ws (out ++ out') = presenceStates ws out ++ presenceStates ws out' :=
  List.filterMap_append

private theorem presenceStates_handleYjsSync (s : State) (k : SocketId) (n : NodeId)
    (data : SyncMessage) : presenceStates ws (s.handleYjsSync k n data).2 = [] := by
  have hanswer (reply : Option SyncMessage) :
      presenceStates ws (reply.toList.map fun msg => s.emit k (.yjsSync n msg)) = [] := by
    cases reply <;> rfl
  unfold State.handleYjsSync
  split
  · rfl
  · dsimp only
    split
    · split
      · exact hanswer _
      · rw [presenceStates_append, hanswer]
        rfl
    · exact hanswer _

private theorem presenceStates_membershipReply {h : HandlerId} {ok : Bool} {out : List Output}
    (hs' : s.membershipReply h ok = some (s', out)) : presenceStates ws out = [] := by
  rcases s.membershipReply_cases hs' with
    ⟨socket, ws', member, -, ⟨-, -, rfl | ⟨text, rfl⟩⟩ | ⟨role, -, -, rfl, -⟩⟩ |
    ⟨socket, userId, ws', n, -, ⟨-, -, rfl⟩ | ⟨-, -, -, text, rfl⟩ | ⟨role, -, -, rfl, -⟩⟩ <;> rfl

/-- Only the answers of Redis are broadcast. -/
theorem presenceStates_of_step {e : Event} (hstep : step lex verify s e = some s')
    (hreply : ∀ reply, e ≠ .redisReply reply) :
    presenceStates ws (outputs lex verify s e) = [] := by
  have h : handle lex verify s e = some (s', outputs lex verify s e) := step_eq_some.mp hstep
  generalize outputs lex verify s e = out at h
  cases e with
  | redisReply reply => exact absurd rfl (hreply reply)
  | membershipReply i ok => exact presenceStates_membershipReply h
  | yjsSync k n data =>
      rw [handle] at h
      split at h
      · rw [← show _ = out from congrArg Prod.snd (Option.some.inj h)]
        exact presenceStates_handleYjsSync s k n data
      · cases h
  | joinWorkspace k ws' userName color profile =>
      rw [handle] at h
      split at h
      · unfold State.handleJoin at h
        split at h <;> cases h <;> rfl
      · cases h
  | yjsJoin k n =>
      rw [handle] at h
      split at h
      · rw [← show _ = out from congrArg Prod.snd (Option.some.inj h)]
        rcases s.handleYjsJoin_cases k n with
          ⟨text, heq⟩ | ⟨userId, ws', -, -, ⟨-, heq⟩ | ⟨role, -, heq⟩⟩ <;> rw [heq] <;> rfl
      · cases h
  | resumeYjsJoin i =>
      obtain ⟨k, ws', role, n, get, c, -, -, ⟨failure, -, -, rfl⟩ | ⟨r, -, heq⟩⟩ :=
        s.resumeYjsJoin_cases h
      · rfl
      · cases heq
        rfl
  | announce t =>
      rw [handle, State.announce] at h
      split at h
      · cases h
      · split at h
        · cases h
        · split at h <;> cases h
          rfl
  | manager x =>
      rw [handle] at h
      split at h
      · obtain ⟨m, -, heq⟩ := Option.map_eq_some_iff.mp h
        cases heq
        rfl
      · cases h
  | connect token =>
      cases h
      rfl
  | broadcast event =>
      cases h
      rfl
  | broadcastYjsUpdate n update =>
      cases h
      rfl
  | setMembership userId ws' role =>
      cases h
      rfl
  | awarenessExpire ws' =>
      cases h
      rfl
  | presenceExpire ws' =>
      cases h
      rfl
  | restart =>
      cases h
      rfl
  | _ =>
      rw [handle] at h
      split at h <;> cases h
      rfl

/-- What a handler reads of the hash, it broadcasts. -/
theorem presenceStates_of_resume (h : HandlerId) (socket : SocketId) {answer : Answer}
    {pending : Pending} {members : List PresenceMember}
    (hanswer : pending.readsPresence ws = true → answer = .hash members) :
    presenceStates ws (s.resume h socket answer pending).2 =
      if pending.readsPresence ws = true then [members] else [] := by
  have hother {ws' : WorkspaceId} (hne : ws' ≠ ws) (recipients : Finset SocketId)
      (members' : List PresenceMember) (out : List Output) :
      presenceStates ws (.emit recipients (.presenceState ws' members') :: out) =
        presenceStates ws out := by
    simp [presenceStates, hne]
  have hself (recipients : Finset SocketId) (out : List Output) :
      presenceStates ws (.emit recipients (.presenceState ws members) :: out) =
        members :: presenceStates ws out := by
    simp [presenceStates]
  cases pending with
  | joinGetCachedAwareness ws' member =>
      have hcached (cached : Option Bytes) : presenceStates ws (cached.toList.map fun data =>
          s.emit socket (.yjsWsAwareness ws' data)) = [] := by
        cases cached <;> rfl
      exact hcached _
  | joinListPresence ws' | leaveListPresence ws' =>
      by_cases hws : ws' = ws
      · subst hws
        rw [hanswer (decide_eq_true rfl)]
        exact (hself _ _).trans (if_pos (decide_eq_true rfl)).symm
      · refine Eq.trans ?_ (if_neg fun hreads => hws (of_decide_eq_true hreads)).symm
        cases answer with
        | hash members' => exact hother hws _ _ _
        | _ => rfl
  | joinUpsertPresence _ _ | joinExpirePresence _ | leaveRemovePresence _ _ =>
      unfold State.resume
      dsimp only
      split <;> rfl
  | _ => rfl

variable (lex verify ws) in
/-- What is broadcast in the step goes to the sockets that are in the room of the workspace. -/
def ToWorkspace (w : Wire) (e : Wire.Event) (_ : Wire) : Prop :=
  ∀ recipients members, .emit recipients (.presenceState ws members) ∈ Wire.outputs lex verify w e →
    recipients = w.gateway.inRoom (.workspace ws)

private theorem recipients_of_resume {h : HandlerId} {socket : SocketId} {answer : Answer}
    {pending : Pending} {recipients : Finset SocketId} {members : List PresenceMember}
    (hmem : .emit recipients (.presenceState ws members) ∈ (s.resume h socket answer pending).2) :
    recipients = s.inRoom (.workspace ws) := by
  cases pending with
  | joinListPresence ws' =>
      cases answer with
      | hash members' =>
          rcases List.mem_cons.mp hmem with heq | hmem
          · cases heq
            rfl
          · cases List.mem_singleton.mp hmem
      | _ => cases hmem
  | leaveListPresence ws' =>
      cases answer with
      | hash members' =>
          cases List.mem_singleton.mp hmem
          rfl
      | _ => cases hmem
  | joinGetCachedAwareness ws' member =>
      obtain ⟨data, -, heq⟩ := List.mem_map.mp hmem
      cases heq
  | joinUpsertPresence _ _ | joinExpirePresence _ | leaveRemovePresence _ _ =>
      unfold State.resume at hmem
      dsimp only at hmem
      split at hmem <;> cases hmem
  | cacheAwareness ws' data => cases List.mem_singleton.mp hmem
  | _ => cases hmem

/-- **Whoever is in the room of the workspace is sent the broadcast, and nobody else.** -/
theorem toWorkspace_of_step {w w' : Wire} {e : Wire.Event}
    (hstep : Wire.step lex verify w e = some w') : ToWorkspace lex verify ws w e w' := by
  intro recipients members hmem
  have hnone {out : List Output} (hsilent : presenceStates ws out = [])
      (hmem : .emit recipients (.presenceState ws members) ∈ out) : False := by
    have hshown : members ∈ presenceStates ws out :=
      List.mem_filterMap.mpr ⟨_, hmem, if_pos rfl⟩
    rw [hsilent] at hshown
    cases hshown
  obtain ⟨⟨w₁, out⟩, hhandle, rfl⟩ := Option.map_eq_some_iff.mp hstep
  rw [Wire.outputs, hhandle] at hmem
  change Output.emit recipients (.presenceState ws members) ∈ out at hmem
  cases e with
  | gateway e =>
      by_cases hrestart : e = .restart
      · subst hrestart
        cases hhandle
        cases hmem
      · obtain ⟨s, hs, -, hout, hreply⟩ := Wire.gateway_of_step hstep hrestart
        rw [Wire.outputs, hhandle] at hout
        change out = outputs lex verify w.gateway e at hout
        exact (hnone (presenceStates_of_step hs hreply) (hout ▸ hmem)).elim
  | execute reply =>
      obtain ⟨w₂, -, heq⟩ := Option.map_eq_some_iff.mp hhandle
      cases heq
      cases hmem
  | answer =>
      rw [Wire.handle, Wire.answer] at hhandle
      split at hhandle
      · dsimp only at hhandle
        split at hhandle <;> cases hhandle
        · cases hmem
        · have hto := recipients_of_resume hmem
          exact hto
      · cases hhandle

/-- An answer changes nothing of it. -/
theorem presence_of_resume (s : State) (h : HandlerId) (socket : SocketId) (answer : Answer)
    (pending : Pending) : (s.resume h socket answer pending).1.presence = s.presence := by
  cases pending with
  | joinListPresence ws' => cases answer <;> rfl
  | leaveListPresence ws' =>
      obtain ⟨_, _, hclean⟩ := cleanupYjs_eq (s.finish h) socket
      cases answer with
      | hash members =>
          show ((s.finish h).cleanupYjs socket).presence = s.presence
          rw [hclean]
          rfl
      | _ => rfl
  | joinUpsertPresence _ _ | joinExpirePresence _ | leaveRemovePresence _ _ =>
      unfold State.resume
      dsimp only
      split <;> rfl
  | _ => rfl

/-! ### The simulation -/

/-- No command of Redis fails, no key expires, and the server keeps running. -/
def Wire.Undisturbed : Wire.Event → Prop
  | .gateway e => Gateway.Undisturbed e
  | .execute reply => reply = .ok
  | .answer => True

instance : DecidablePred Wire.Undisturbed := by
  intro e
  unfold Wire.Undisturbed
  induction e using Wire.Event.casesOn <;> infer_instance

/-- The answer to an executed command: if it is the `hGetAll`, the hash as it was. -/
def Answers (ws : WorkspaceId) (answer : Answer) (q : Pending × List PresenceMember) : Prop :=
  answer ≠ .error ∧ (q.1.readsPresence ws = true → answer = .hash q.2)

/-- **The relation**: the gateway on the wire, and the pipeline of a hash. -/
structure Simulates (ws : WorkspaceId) (w : Wire)
    (p : Pipeline Pending (List PresenceMember)) : Prop where
  inv : CommandsInv w.gateway
  queue : w.gateway.queue.map (fun q => q.2.pending) = p.executed.map Prod.fst ++ p.waiting
  answers : List.Forall₂ (Answers ws) w.answers p.executed
  store : w.gateway.presence ws = p.store

variable {w w' : Wire} {p : Pipeline Pending (List PresenceMember)}

/-- Nothing is under way. -/
theorem simulates_start (hI : CommandsInv s) (hcommands : s.commands = []) :
    Simulates ws ⟨s, []⟩ (.start (s.presence ws)) where
  inv := hI
  queue := by
    rw [State.queue, hcommands]
    rfl
  answers := .nil
  store := rfl

/-- A step of the wire, as steps of the pipeline that show what it broadcasts. -/
def Matches (lex : Lexical) (verify : String → Option UserId) (ws : WorkspaceId) (w : Wire)
    (e : Wire.Event) (w' : Wire) (p : Pipeline Pending (List PresenceMember)) : Prop :=
  ∃ fs p', exec (Pipeline.step (presenceProtocol ws)) p fs = some p' ∧ Simulates ws w' p' ∧
    p'.shown = p.shown ++ presenceStates ws (Wire.outputs lex verify w e)

private theorem matches_gateway {e : Event} (hS : Simulates ws w p)
    (hstep : Wire.step lex verify w (.gateway e) = some w') (he : Undisturbed e) :
    Matches lex verify ws w (.gateway e) w' p := by
  have hrestart : e ≠ .restart := by
    rintro rfl
    exact he
  have hexpire : e ≠ .presenceExpire ws := by
    rintro rfl
    exact he
  obtain ⟨s, hs, rfl, hout, hreply⟩ := Wire.gateway_of_step hstep hrestart
  obtain ⟨hI, hqueue⟩ := queue_of_step hS.inv hs hreply hrestart
  have hstore : s.presence ws = p.store :=
    ((store_of_step hs hreply).1 ws hexpire).trans hS.store
  have hsilent : presenceStates ws (Wire.outputs lex verify w (.gateway e)) = [] :=
    hout ▸ presenceStates_of_step hs hreply
  cases hissues : w.gateway.issues e with
  | none =>
      rw [hissues] at hqueue
      refine ⟨[], p, rfl, ⟨hI, ?_, hS.answers, hstore⟩, ?_⟩
      · show s.queue.map _ = _
        rw [hqueue]
        exact (congrArg _ (List.append_nil _)).trans hS.queue
      · rw [hsilent, List.append_nil]
  | some q =>
      rw [hissues] at hqueue
      refine ⟨[.issue q.2.pending], { p with waiting := p.waiting ++ [q.2.pending] }, ?_,
        ⟨hI, ?_, hS.answers, hstore⟩, ?_⟩
      · rw [exec_cons, Pipeline.step, if_pos (owes_of_issues hissues)]
        rfl
      · show s.queue.map _ = _
        rw [hqueue, List.map_append, hS.queue, List.append_assoc]
        rfl
      · rw [hsilent, List.append_nil]

/-- Of a command that is under way, the store makes what the protocol says. -/
private theorem presence_executeCommand (s : State) (pending : Pending) :
    (s.executeCommand pending).presence ws = pending.presenceEffect ws (s.presence ws) := by
  have hupdate (ws' : WorkspaceId) (f : List PresenceMember → List PresenceMember) :
      Function.update s.presence ws' (f (s.presence ws')) ws =
        if ws' = ws then f (s.presence ws) else s.presence ws := by
    by_cases hws : ws' = ws
    · subst hws
      rw [Function.update_self, if_pos rfl]
    · rw [Function.update_of_ne (Ne.symm hws), if_neg hws]
  cases pending with
  | joinUpsertPresence ws' member => exact hupdate ws' fun members => State.hSet members member
  | leaveRemovePresence ws' userId => exact hupdate ws' fun members => State.hDel members userId
  | _ => rfl

private theorem answers_answerTo (s : State) (pending : Pending) :
    Answers ws (s.answerTo pending) (pending, s.presence ws) := by
  refine ⟨answerTo_ne_error s pending, fun hreads => ?_⟩
  cases pending with
  | joinListPresence ws' | leaveListPresence ws' =>
      obtain rfl := of_decide_eq_true hreads
      rfl
  | _ => cases hreads

private theorem matches_execute (hS : Simulates ws w p)
    (hstep : Wire.step lex verify w (.execute .ok) = some w') :
    Matches lex verify ws w (.execute .ok) w' p := by
  obtain ⟨⟨w₁, out⟩, hhandle, rfl⟩ := Option.map_eq_some_iff.mp hstep
  obtain ⟨w₂, hexecute, heq⟩ := Option.map_eq_some_iff.mp hhandle
  cases heq
  have hlength : w.answers.length = p.executed.length := hS.answers.length_eq
  cases hcommand : w.gateway.commands[w.answers.length]? with
  | none =>
      rw [Wire.execute, hcommand] at hexecute
      cases hexecute
  | some h =>
      -- its handler is the first in the pipeline that waits
      have hentry := hcommand
      rw [← hS.inv.map_fst_queue, List.getElem?_map, Option.map_eq_some_iff] at hentry
      obtain ⟨⟨h, ⟨socket, pending⟩⟩, hentry, rfl⟩ := hentry
      have hx := CommandsInv.handler_of_mem_queue (List.mem_of_getElem? hentry)
      obtain ⟨waiting, hwaiting⟩ : ∃ waiting, p.waiting = pending :: waiting := by
        have hfirst : (p.executed.map Prod.fst ++ p.waiting)[p.executed.length]? =
            some pending := by
          rw [← hS.queue, List.getElem?_map, ← hlength, hentry]
          rfl
        rw [List.getElem?_append_right (by rw [List.length_map]), List.length_map, Nat.sub_self,
          ← List.head?_eq_getElem?] at hfirst
        exact List.head?_eq_some_iff.mp hfirst
      rw [Wire.execute_of_command .ok hcommand hx] at hexecute
      cases hexecute
      obtain ⟨presence, awareness, hexecuted⟩ := executeCommand_eq w.gateway pending
      have hI : CommandsInv (w.gateway.executeCommand pending) := by
        rw [hexecuted]
        exact ⟨hS.inv.numbered, hS.inv.nodup, hS.inv.awaits⟩
      have hqueue : (w.gateway.executeCommand pending).queue = w.gateway.queue := by
        rw [hexecuted]
        rfl
      have hanswer : Answers ws (w.gateway.answerTo pending) (pending, p.store) :=
        hS.store ▸ answers_answerTo w.gateway pending
      refine ⟨[.execute], { p with
        executed := p.executed ++ [(pending, p.store)]
        waiting := waiting
        store := pending.presenceEffect ws p.store }, ?_, ⟨hI, ?_, ?_, ?_⟩, ?_⟩
      · rw [exec_cons, Pipeline.step, hwaiting]
        rfl
      · show (w.gateway.executeCommand pending).queue.map _ = _
        rw [hqueue, hS.queue, hwaiting, List.map_append, List.append_assoc]
        rfl
      · exact List.rel_append hS.answers (.cons hanswer .nil)
      · show (w.gateway.executeCommand pending).presence ws = _
        rw [presence_executeCommand, hS.store]
      · rw [Wire.outputs, hhandle]
        exact (List.append_nil _).symm

private theorem matches_answer (hS : Simulates ws w p)
    (hstep : Wire.step lex verify w .answer = some w') : Matches lex verify ws w .answer w' p := by
  obtain ⟨⟨⟨s', answers'⟩, out⟩, hanswer, rfl⟩ := Option.map_eq_some_iff.mp hstep
  obtain ⟨s, answers⟩ := w
  obtain ⟨answer, hanswers⟩ := Wire.answers_of_answer hanswer
  obtain rfl : answers = answer :: answers' := hanswers
  obtain ⟨⟨pending, members⟩, executed, ⟨hok, hreads⟩, hrest, hexecuted⟩ :=
    List.forall₂_cons_left_iff.mp hS.answers
  have hI : CommandsInv s := hS.inv
  have hqueue : s.queue.map (fun q => q.2.pending) = p.executed.map Prod.fst ++ p.waiting := hS.queue
  cases hcommands : s.commands with
  | nil =>
      simp only [Wire.handle, Wire.answer, hcommands] at hanswer
      cases hanswer
  | cons h rest =>
      obtain ⟨⟨socket, pending'⟩, hx, -⟩ := hI.awaits h (hcommands ▸ List.mem_cons_self)
      obtain ⟨hI', waiting, holdest, hqueue'⟩ := queue_of_resume hI answer hcommands hx
      -- the answer is that of the first executed command
      rw [holdest, hexecuted] at hqueue
      obtain ⟨rfl, hwaiting⟩ : pending' = pending ∧
          waiting.map (fun q => q.2.pending) = executed.map Prod.fst ++ p.waiting :=
        List.cons.inj hqueue
      rw [Wire.handle, Wire.answer_of_command hcommands hx] at hanswer
      obtain ⟨hwire, rfl⟩ := Prod.mk.inj (Option.some.inj hanswer)
      obtain ⟨rfl, -⟩ := Wire.mk.inj hwire
      refine ⟨[.answer], { p with
        executed := executed
        waiting := p.waiting ++ (pending'.next).toList
        shown := p.shown ++ if pending'.readsPresence ws = true then [members] else [] }, ?_,
        ⟨hI', ?_, hrest, ?_⟩, ?_⟩
      · rw [exec_cons, Pipeline.step, hexecuted]
        rfl
      · show List.map _ (State.queue _) = _
        rw [hqueue' hok, List.map_append, hwaiting, List.append_assoc]
        cases pending'.next <;> rfl
      · exact (congrFun (presence_of_resume _ h socket answer pending') ws).trans hS.store
      · rw [Wire.outputs, Wire.handle, Wire.answer_of_command hcommands hx]
        exact congrArg _ (presenceStates_of_resume h socket hreads).symm

/-- **One step** of the wire is one of the pipeline, or none. -/
theorem simulates_of_step {e : Wire.Event} (hS : Simulates ws w p)
    (hstep : Wire.step lex verify w e = some w') (he : Wire.Undisturbed e) :
    Matches lex verify ws w e w' p := by
  cases e with
  | gateway e => exact matches_gateway hS hstep he
  | execute reply =>
      obtain rfl : reply = .ok := he
      exact matches_execute hS hstep
  | answer => exact matches_answer hS hstep

/-- **A run** of the wire is one of the pipeline, which shows what it broadcasts. -/
theorem simulates_of_exec {es : List Wire.Event} (hS : Simulates ws w p)
    (hes : exec (Wire.step lex verify) w es = some w') (hundisturbed : ∀ e ∈ es, Wire.Undisturbed e) :
    ∃ fs p', exec (Pipeline.step (presenceProtocol ws)) p fs = some p' ∧ Simulates ws w' p' ∧
      p'.shown = p.shown ++ presenceStates ws (Wire.sent lex verify w es) := by
  induction es generalizing w p with
  | nil =>
      cases hes
      exact ⟨[], p, rfl, hS, (List.append_nil _).symm⟩
  | cons e es ih =>
      rw [exec_cons, Option.bind_eq_some_iff] at hes
      obtain ⟨w₁, hstep, hes⟩ := hes
      obtain ⟨he, hrest⟩ := List.forall_mem_cons.mp hundisturbed
      obtain ⟨fs, p₁, hfs, hS₁, hshown⟩ := simulates_of_step hS hstep he
      obtain ⟨gs, p', hgs, hS', hshown'⟩ := ih hS₁ hes hrest
      refine ⟨fs ++ gs, p', ?_, hS', ?_⟩
      · rw [exec_append, hfs]
        exact hgs
      · rw [hshown', hshown, Wire.sent_cons es hstep, presenceStates_append, List.append_assoc]

/-- The pipeline is settled once nobody updates the hash. -/
theorem settled_of_simulates (hS : Simulates ws w p) (hnot : ¬ w.gateway.Updating ws) :
    p.Settled (presenceProtocol ws) := by
  intro c hc
  rw [← hS.queue] at hc
  obtain ⟨⟨h, x⟩, hmem, rfl⟩ := List.mem_map.mp hc
  have hx := CommandsInv.handler_of_mem_queue hmem
  have hnone : x.pending.writesPresence ws = false ∧ x.pending.owesPresence ws = false ∧
      x.pending.readsPresence ws = false := by
    have hfalse := Bool.eq_false_iff.mpr fun h' => hnot ⟨h, hS.inv.numbered h x hx, x, hx, h'⟩
    simpa [and_assoc] using hfalse
  exact hnone

/-- **The last broadcast is right.**  From a state without a command under way, let the
commands of any handlers be issued, executed and answered in any order that keeps that
of the issues.  Once nobody is changing the hash or reading it back, the last members
that were broadcast are those of the hash; without a broadcast it is as it was.  Each
broadcast goes to the sockets that are in the room of the workspace then. -/
theorem lastPresenceState_eq (lex : Lexical) (verify : String → Option UserId)
    (ws : WorkspaceId) {nodes : NodeId → Option DocManager.NodeRow}
    {memberships : UserId → WorkspaceId → Option Role} {s₀ : State} {es : List Wire.Event}
    {w : Wire} (hs₀ : Reachable (step lex verify) (State.init nodes memberships) s₀)
    (hcommands : s₀.commands = []) (hes : exec (Wire.step lex verify) ⟨s₀, []⟩ es = some w)
    (hundisturbed : ∀ e ∈ es, Wire.Undisturbed e) (hnot : ¬ w.gateway.Updating ws) :
    (presenceStates ws (Wire.sent lex verify ⟨s₀, []⟩ es)).getLast?.getD (s₀.presence ws) =
        w.gateway.presence ws ∧
      Along (Wire.step lex verify) (ToWorkspace lex verify ws) ⟨s₀, []⟩ es := by
  refine ⟨?_, along_of_forall (P := ToWorkspace lex verify ws) (fun _ _ _ => toWorkspace_of_step) _ es⟩
  obtain ⟨fs, p, hfs, hS, hshown⟩ := simulates_of_exec
    (simulates_start (commandsInv_of_reachable hs₀) hcommands) hes hundisturbed
  have hlast : p.shown.getLast?.getD (s₀.presence ws) = p.store :=
    Pipeline.shown_of_settled ⟨fs, hfs⟩ (settled_of_simulates hS hnot)
  rw [hshown] at hlast
  exact hlast.trans hS.store.symm

/-- Two members join at once.  While their reads are under way, one of them leaves, and
is removed before either read has been answered. -/
def joinsAndLeaves : List Wire.Event :=
  [.connect (some "token of 9"), .connect (some "token of 8"),
    .joinWorkspace 0 7 "" "" none, .joinWorkspace 1 7 "" "" none,
    .membershipReply 0 true, .membershipReply 1 true].map .gateway ++
  [.execute .ok, .execute .ok, .answer, .answer, .execute .ok, .answer, .execute .ok, .answer,
    .execute .ok, .execute .ok, .answer, .answer, .gateway (.disconnect 1),
    .execute .ok, .execute .ok, .execute .ok, .answer, .answer, .answer, .execute .ok, .answer]

/-- Both reads are broadcast when they are outdated, and the third is the last. -/
theorem joinsAndLeaves_lastPresenceState :
    ∃ w, exec (Wire.step .plain plainToken) ⟨State.init DocManager.oneNode
        (members [(9, 7, .EDITOR), (8, 7, .VIEWER)]), []⟩ joinsAndLeaves = some w ∧
      (presenceStates 7 (Wire.sent .plain plainToken ⟨State.init DocManager.oneNode
        (members [(9, 7, .EDITOR), (8, 7, .VIEWER)]), []⟩ joinsAndLeaves)).length = 3 ∧
      (presenceStates 7 (Wire.sent .plain plainToken ⟨State.init DocManager.oneNode
        (members [(9, 7, .EDITOR), (8, 7, .VIEWER)]), []⟩ joinsAndLeaves)).getLast?.getD [] =
        w.gateway.presence 7 := by
  have hrun : ((exec (Wire.step .plain plainToken) ⟨State.init DocManager.oneNode
      (members [(9, 7, .EDITOR), (8, 7, .VIEWER)]), []⟩ joinsAndLeaves).any fun w =>
        decide w.gateway.Idle) = true := by
    decide +kernel
  obtain ⟨w, hes, hidle⟩ := (Option.any_eq_true _ _).mp hrun
  exact ⟨w, hes, (by decide +kernel), (lastPresenceState_eq .plain plainToken 7 (.refl _ _) rfl hes
    (by decide) (not_suspended_of_idle (of_decide_eq_true hidle))).1⟩

end AideepWebsocket.Gateway
