import AideepWebsocket.Gateway.Handlers

/-!
# Answers under way

`redisReply` executes the oldest command of the process and resumes its handler in one
step.  Between the two the answer is under way: Redis goes on with the next commands
meanwhile, other handlers run, and what the answer says of the hash may be outdated when
it arrives.  Here the two are steps of their own.

* `executeCommand`, `answerTo` — what Redis makes of a command, and answers;
* `resume` — the code of a handler behind its await, given the answer;
* `Wire` — the gateway with the answers under way, those of the oldest commands.

`redisReply_eq` says that `redisReply` is the execution followed at once by the arrival
of the answer, so every run of the gateway is one of the wire
(`exec_wire_of_exec`).
-/

namespace AideepWebsocket.Gateway

open Library
open DocManager (Reply)

variable {lex : Lexical} {verify : String → Option UserId}

/-- What Redis answers; `error` if the command has failed, or its answer is lost. -/
inductive Answer
  | done
  | value (data : Option Bytes)
  | hash (members : List PresenceMember)
  | error
  deriving DecidableEq

namespace State

/-- Redis executes the command of a handler. -/
def executeCommand (s : State) : Pending → State
  | .joinUpsertPresence workspaceId member =>
      { s with
        presence := Function.update s.presence workspaceId
          (hSet (s.presence workspaceId) member) }
  | .leaveRemovePresence workspaceId userId =>
      { s with
        presence := Function.update s.presence workspaceId
          (hDel (s.presence workspaceId) userId) }
  | .cacheAwareness workspaceId data =>
      { s with awareness := Function.update s.awareness workspaceId (some data) }
  | _ => s

/-- What it answers. -/
def answerTo (s : State) : Pending → Answer
  | .joinGetCachedAwareness workspaceId _ => .value (s.awareness workspaceId)
  | .joinListPresence workspaceId | .leaveListPresence workspaceId =>
      .hash (s.presence workspaceId)
  | _ => .done

/-- The handler `h` resumes with the answer to its command. -/
def resume (s : State) (h : HandlerId) (socket : SocketId) (answer : Answer) :
    Pending → State × List Output
  | .joinGetCachedAwareness workspaceId member =>
      -- a failure is read as a miss, and so is an empty value
      let cached :=
        match answer with
        | .value data => data.filter (· ≠ [])
        | _ => none
      ((s.resuspend h socket (.joinUpsertPresence workspaceId member)).issue h,
        cached.toList.map fun data => s.emit socket (.yjsWsAwareness workspaceId data))
  | .joinUpsertPresence workspaceId _ =>
      if answer = .error then (s.finish h, [])
      else ((s.resuspend h socket (.joinExpirePresence workspaceId)).issue h, [])
  | .joinExpirePresence workspaceId =>
      if answer = .error then (s.finish h, [])
      else ((s.resuspend h socket (.joinListPresence workspaceId)).issue h, [])
  | .joinListPresence workspaceId =>
      match answer with
      | .hash members =>
          (s.finish h, [s.emitToRoom (.workspace workspaceId) (.presenceState workspaceId members),
            .ack socket .ok])
      | _ => (s.finish h, [])
  | .leaveRemovePresence workspaceId _ =>
      if answer = .error then (s.finish h, [])
      else ((s.resuspend h socket (.leaveListPresence workspaceId)).issue h, [])
  | .leaveListPresence workspaceId =>
      match answer with
      | .hash members =>
          ((s.finish h).cleanupYjs socket,
            [s.emitToRoom (.workspace workspaceId) (.presenceState workspaceId members)])
      | _ => (s.finish h, [])
  | .cacheAwareness workspaceId data =>
      -- a failure is only logged
      (s.finish h,
        [s.emitToOthers socket (.yjsWsRoom workspaceId) (.yjsWsAwareness workspaceId data)])
  | _ => (s, [])

end State

/-- The gateway, and the answers to its oldest commands. -/
structure Wire where
  gateway : State
  answers : List Answer

namespace Wire

inductive Event
  /-- Anything but a reply of Redis. -/
  | gateway (e : Gateway.Event)
  | execute (reply : Reply)
  | answer

/-- Redis executes the oldest command that it has not executed yet. -/
def execute (w : Wire) (reply : Reply) : Option Wire :=
  match w.gateway.commands[w.answers.length]? with
  | none => none
  | some h =>
      match w.gateway.handlers h with
      | none => some { w with answers := w.answers ++ [.error] }
      | some ⟨_, pending⟩ =>
          some {
            gateway :=
              if reply.executed then w.gateway.executeCommand pending else w.gateway
            answers :=
              w.answers ++ [if reply = .ok then w.gateway.answerTo pending else .error] }

/-- The oldest answer arrives. -/
def answer (w : Wire) : Option (Wire × List Output) :=
  match w.gateway.commands, w.answers with
  | h :: rest, a :: answers =>
      let s := { w.gateway with commands := rest }
      match s.handlers h with
      | none => some (⟨s, answers⟩, [])
      | some ⟨socket, pending⟩ =>
          let (s', out) := s.resume h socket a pending
          some (⟨s', answers⟩, out)
  | _, _ => none

variable (lex verify) in
/-- One step, with what it sends.  A restart loses the answers under way. -/
def handle (w : Wire) : Event → Option (Wire × List Output)
  | .gateway (.redisReply _) => none
  | .gateway .restart => some (⟨w.gateway.restart, []⟩, [])
  | .gateway e =>
      (Gateway.handle lex verify w.gateway e).map fun (s, out) => ({ w with gateway := s }, out)
  | .execute reply => (w.execute reply).map fun w' => (w', [])
  | .answer => w.answer

variable (lex verify) in
def step (w : Wire) (e : Event) : Option Wire := (handle lex verify w e).map Prod.fst

variable (lex verify) in
/-- What a step sends. -/
def outputs (w : Wire) (e : Event) : List Output :=
  ((handle lex verify w e).map Prod.snd).getD []

variable (lex verify) in
/-- What a run sends. -/
def sent (w : Wire) (es : List Event) : List Output :=
  (path (step lex verify) w es).flatMap fun x => outputs lex verify x.1 x.2

end Wire

/-! ### The gateway on the wire -/

variable {s s' : State} {h : HandlerId} {rest : List HandlerId} {socket : SocketId}
  {pending : Pending}

namespace Wire

theorem execute_of_command {answers : List Answer} (reply : Reply)
    (hcommand : s.commands[answers.length]? = some h)
    (hx : s.handlers h = some ⟨socket, pending⟩) :
    execute ⟨s, answers⟩ reply = some
      ⟨if reply.executed then s.executeCommand pending else s,
        answers ++ [if reply = .ok then s.answerTo pending else .error]⟩ := by
  simp only [execute, hcommand, hx]

theorem answers_of_execute {w w' : Wire} {reply : Reply} (h : w.execute reply = some w') :
    ∃ a, w'.answers = w.answers ++ [a] := by
  unfold execute at h
  split at h
  · cases h
  · split at h <;> cases h <;> exact ⟨_, rfl⟩

theorem answers_of_answer {w : Wire} {p : Wire × List Output} (h : w.answer = some p) :
    ∃ a, w.answers = a :: p.1.answers := by
  unfold answer at h
  split at h
  · next hanswers =>
      dsimp only at h
      split at h <;> cases h <;> exact ⟨_, hanswers⟩
  · cases h

theorem answer_of_command {a : Answer} {answers : List Answer} (hcommands : s.commands = h :: rest)
    (hx : s.handlers h = some ⟨socket, pending⟩) :
    answer ⟨s, a :: answers⟩ = some
      (⟨(({ s with commands := rest } : State).resume h socket a pending).1, answers⟩,
        (({ s with commands := rest } : State).resume h socket a pending).2) := by
  simp only [answer, hcommands, hx]

end Wire

/-- Redis changes nothing but what it holds. -/
theorem executeCommand_eq (s : State) (pending : Pending) :
    ∃ presence awareness, s.executeCommand pending =
      { s with presence := presence, awareness := awareness } := by
  cases pending <;> exact ⟨_, _, rfl⟩

theorem answerTo_ne_error (s : State) (pending : Pending) : s.answerTo pending ≠ .error := by
  cases pending <;> exact nofun

/-- A reply lets Redis execute the command and the handler resume with the answer. -/
theorem redisReply_of_command (reply : Reply) (hcommands : s.commands = h :: rest)
    (hx : s.handlers h = some ⟨socket, pending⟩) :
    s.redisReply reply =
      some (({ (if reply.executed then s.executeCommand pending else s) with
        commands := rest } : State).resume h socket
          (if reply = .ok then s.answerTo pending else .error) pending) := by
  unfold State.redisReply
  simp only [hcommands, hx]
  cases pending <;> cases reply <;> rfl

/-- **A reply** is an execution and the arrival of its answer, with nothing in between. -/
theorem redisReply_eq (s : State) (reply : Reply) :
    s.redisReply reply = ((Wire.execute ⟨s, []⟩ reply).bind Wire.answer).map fun p =>
      (p.1.gateway, p.2) := by
  cases hcommands : s.commands with
  | nil => simp [State.redisReply, Wire.execute, hcommands]
  | cons h rest =>
      have hcommand : s.commands[([] : List Answer).length]? = some h := by
        rw [hcommands]
        rfl
      cases hx : s.handlers h with
      | none => simp [State.redisReply, Wire.execute, Wire.answer, hcommands, hx]
      | some x =>
          obtain ⟨socket, pending⟩ := x
          have hsame : (if reply.executed then s.executeCommand pending else s).commands = h :: rest ∧
              (if reply.executed then s.executeCommand pending else s).handlers h =
                some ⟨socket, pending⟩ := by
            obtain ⟨_, _, heq⟩ := executeCommand_eq s pending
            rw [heq]
            split <;> exact ⟨hcommands, hx⟩
          rw [Wire.execute_of_command reply hcommand hx, Option.bind_some, List.nil_append,
            Wire.answer_of_command hsame.1 hsame.2, redisReply_of_command reply hcommands hx]
          rfl

namespace Wire

theorem sent_cons {w w' : Wire} {e : Event} (es : List Event)
    (hstep : step lex verify w e = some w') :
    sent lex verify w (e :: es) = outputs lex verify w e ++ sent lex verify w' es := by
  rw [sent, path_cons es hstep, List.flatMap_cons]
  rfl

theorem sent_append {w w' : Wire} {es : List Event} (fs : List Event)
    (hes : exec (step lex verify) w es = some w') :
    sent lex verify w (es ++ fs) = sent lex verify w es ++ sent lex verify w' fs := by
  rw [sent, path_append fs hes, List.flatMap_append]
  rfl

/-- A step of the gateway that is neither a reply nor a restart. -/
theorem handle_gateway (w : Wire) {e : Gateway.Event} (hreply : ∀ reply, e ≠ .redisReply reply)
    (hrestart : e ≠ .restart) :
    handle lex verify w (.gateway e) =
      (Gateway.handle lex verify w.gateway e).map fun p => ({ w with gateway := p.1 }, p.2) := by
  cases e with
  | redisReply reply => exact absurd rfl (hreply reply)
  | restart => exact absurd rfl hrestart
  | _ => rfl

/-- Such a step leaves the answers under way alone. -/
theorem gateway_of_step {w w' : Wire} {e : Gateway.Event}
    (hstep : step lex verify w (.gateway e) = some w') (hrestart : e ≠ .restart) :
    ∃ s, Gateway.step lex verify w.gateway e = some s ∧ w' = { w with gateway := s } ∧
      outputs lex verify w (.gateway e) = Gateway.outputs lex verify w.gateway e ∧
      ∀ reply, e ≠ .redisReply reply := by
  have hreply : ∀ reply, e ≠ .redisReply reply := by
    rintro reply rfl
    cases hstep
  rw [step, handle_gateway w hreply hrestart, Option.map_map, Option.map_eq_some_iff] at hstep
  obtain ⟨⟨s, out⟩, hhandle, rfl⟩ := hstep
  refine ⟨s, ?_, rfl, ?_, hreply⟩
  · rw [Gateway.step, hhandle]
    rfl
  · rw [outputs, handle_gateway w hreply hrestart, Gateway.outputs, hhandle]
    rfl

end Wire

/-- So a step of the gateway is one of the wire, or two. -/
private theorem exec_wire_of_step {e : Event} (h : step lex verify s e = some s') :
    ∃ es : List Wire.Event, exec (Wire.step lex verify) ⟨s, []⟩ es = some ⟨s', []⟩ ∧
      Wire.sent lex verify ⟨s, []⟩ es = outputs lex verify s e := by
  have hhandle : handle lex verify s e = some (s', outputs lex verify s e) := step_eq_some.mp h
  by_cases hreply : ∃ reply, e = .redisReply reply
  · obtain ⟨reply, rfl⟩ := hreply
    have hboth : s.redisReply reply = some (s', outputs lex verify s (.redisReply reply)) := hhandle
    rw [redisReply_eq, Option.map_eq_some_iff] at hboth
    obtain ⟨⟨w', out⟩, hboth, heq⟩ := hboth
    obtain ⟨w, hexecute, hanswer⟩ := Option.bind_eq_some_iff.mp hboth
    obtain rfl : w'.gateway = s' := congrArg Prod.fst heq
    have hout : out = outputs lex verify s (.redisReply reply) := congrArg Prod.snd heq
    have hnone : w'.answers = [] := by
      obtain ⟨a, hone⟩ := Wire.answers_of_execute hexecute
      obtain ⟨a', hone'⟩ := Wire.answers_of_answer hanswer
      exact (List.cons.inj (hone'.symm.trans hone)).2
    have hfirst : Wire.handle lex verify ⟨s, []⟩ (.execute reply) = some (w, []) := by
      rw [Wire.handle, hexecute]
      rfl
    have hsecond : Wire.handle lex verify w .answer = some (w', out) := hanswer
    have hstep : Wire.step lex verify ⟨s, []⟩ (.execute reply) = some w := by
      rw [Wire.step, hfirst]
      rfl
    have hstep' : Wire.step lex verify w .answer = some w' := by
      rw [Wire.step, hsecond]
      rfl
    refine ⟨[.execute reply, .answer], ?_, ?_⟩
    · rw [exec_cons, hstep, Option.bind_some, exec_cons, hstep', ← hnone]
      rfl
    · rw [Wire.sent_cons _ hstep, Wire.sent_cons _ hstep', Wire.outputs, hfirst, Wire.outputs,
        hsecond, ← hout]
      exact List.append_nil _
  · refine ⟨[.gateway e], ?_⟩
    have hwire : Wire.handle lex verify ⟨s, []⟩ (.gateway e) =
        some (⟨s', []⟩, outputs lex verify s e) := by
      by_cases hrestart : e = .restart
      · subst hrestart
        cases hhandle
        rfl
      · rw [Wire.handle_gateway _ (fun reply he => hreply ⟨reply, he⟩) hrestart, hhandle]
        rfl
    have hstep : Wire.step lex verify ⟨s, []⟩ (.gateway e) = some ⟨s', []⟩ := by
      rw [Wire.step, hwire]
      rfl
    rw [exec_cons, hstep, Wire.sent_cons [] hstep, Wire.outputs, hwire]
    exact ⟨rfl, List.append_nil _⟩

/-- **Every run of the gateway** is one of the wire. -/
theorem exec_wire_of_exec {es : List Event} (hes : exec (step lex verify) s es = some s') :
    ∃ fs : List Wire.Event, exec (Wire.step lex verify) ⟨s, []⟩ fs = some ⟨s', []⟩ ∧
      Wire.sent lex verify ⟨s, []⟩ fs =
        (path (step lex verify) s es).flatMap fun x => outputs lex verify x.1 x.2 := by
  induction es generalizing s with
  | nil =>
      cases hes
      exact ⟨[], rfl, rfl⟩
  | cons e es ih =>
      rw [exec_cons, Option.bind_eq_some_iff] at hes
      obtain ⟨t, hstep, hes⟩ := hes
      obtain ⟨fs, hfs, hsent⟩ := exec_wire_of_step hstep
      obtain ⟨gs, hgs, hsent'⟩ := ih hes
      refine ⟨fs ++ gs, ?_, ?_⟩
      · rw [exec_append, hfs]
        exact hgs
      · rw [Wire.sent_append gs hfs, hsent, hsent', path_cons es hstep, List.flatMap_cons]

end AideepWebsocket.Gateway
