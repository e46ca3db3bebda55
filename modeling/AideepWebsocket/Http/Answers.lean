import AideepWebsocket.Http.Calls
import AideepWebsocket.Http.Guard

/-!
# Every request is answered

* `answers_balance` — **every request is answered once**, with what its own call has returned or
  with an exception, unless the process ends first; and one that waits is not stuck;
* `acknowledged_sent` — **who is told of success can rely on it**: its operation has been
  executed, and the others have been sent the update.

Once is a matter of books: what has arrived has been answered, waits, or was lost (`Balanced`).
That nobody is stuck, and that a client is told of its own operation, rests on the calls that
requests await (`Inv`).
-/

namespace AideepWebsocket.Http.Server

open Library
open DocManager (NodeRow)
open Gateway (Role)
open NodeContent (CallId NodeContentOperationBody NodeContentOperationResponse)
open Redis (Format Tables)

variable {F : Format} {N : Framework} {verify : String → Except String Json} {lex : Lexical}
  {hash : NodeContentOperationBody → String} {s s' : State} {e : Event} {out : List Output}

/-! ### Nobody is stuck -/

variable (F N verify lex hash) in
/-- A request that waits can go on: its guard, whatever Redis replies; or its controller; or the
call that is made for it, and for nobody else, is under way, and what it returns is the
answer. -/
inductive Proceeds (s : State) (id : RequestId) (p : Pending) : Prop
  | guard (h : ∀ reply, (step F N verify lex hash s (.redisReply id reply)).isSome = true)
  | controller (h : (step F N verify lex hash s (.execute id)).isSome = true)
  | call (i : CallId) (call : NodeContent.Call) (hphase : p.phase = .executing i)
      (hsole : ∀ id' p', s.pending id' = some p' → p'.phase = .executing i → id' = id)
      (hcall : s.server.app.service.calls i = some call)
      (hmakes : Makes F N verify p.request call.request)
      (hreturned : ∀ result, call.phase = .returned result →
        handle F N verify lex hash s (.respond id) =
          some (s.setPending id none, [.response id (answer N.texts F.names result)]))

/-- A guard goes on with whatever Redis replies. -/
private theorem isSome_redisReply {id : RequestId} {p : Pending} {command : Library.Redis.Command}
    (hp : s.pending id = some p) (hcommand : guardCommand F p = some command)
    (reply : DocManager.Reply) :
    (step F N verify lex hash s (.redisReply id reply)).isSome = true := by
  rw [step, Option.isSome_map, handle, redisReply, hp]
  dsimp only
  rw [hcommand]
  dsimp only
  split <;> rfl

/-- The controller can be called for what has been let in. -/
private theorem isSome_execute (hI : Inv F N verify s) {id : RequestId} {p : Pending}
    {payload : Json} (hp : s.pending id = some p) (hphase : p.phase = .admitted payload) :
    (step F N verify lex hash s (.execute id)).isSome = true := by
  obtain ⟨hauthenticate, hparse, hexpressible⟩ :=
    (hI.attended id p hp).guarded payload (by rw [hphase]; rfl)
  -- the operation is called, or refused
  have hoperation : ∃ result, operation F N p = some result := by
    rw [operation, hphase]
    dsimp only
    cases hviolations : violations N.length p.body with
    | cons violation found => exact ⟨_, rfl⟩
    | nil =>
        rw [expressible, hparse, hauthenticate] at hexpressible
        simp only [hviolations, ne_eq, not_true_eq_false, decide_false, Bool.false_or,
          Bool.and_eq_true] at hexpressible
        obtain ⟨body, hbody⟩ := Option.isSome_iff_exists.mp hexpressible.1
        obtain ⟨userId, huser⟩ := Option.isSome_iff_exists.mp hexpressible.2
        dsimp only
        rw [hbody, huser]
        dsimp only
        split <;> exact ⟨_, rfl⟩
  obtain ⟨result, hresult⟩ := hoperation
  rw [step, Option.isSome_map, handle, execute, hp]
  dsimp only
  cases result with
  | error exception => rw [hresult]; rfl
  | ok f =>
      obtain ⟨-, userId, body, request, -, -, -, -, hrequest, rfl⟩ := operation_eq_ok hresult
      rw [hresult]
      dsimp only
      rw [move_execute hrequest]
      rfl

/-- **Nobody is stuck.** -/
theorem Inv.proceeds (hI : Inv F N verify s) {id : RequestId} {p : Pending}
    (hp : s.pending id = some p) : Proceeds F N verify lex hash s id p := by
  cases hphase : p.phase with
  | blacklist payload => exact .guard (isSome_redisReply hp (by rw [guardCommand, hphase]))
  | masterToken payload => exact .guard (isSome_redisReply hp (by rw [guardCommand, hphase]))
  | admitted payload => exact .controller (isSome_execute hI hp hphase)
  | executing i =>
      have hi : p.phase.call = some i := by rw [hphase]; rfl
      obtain ⟨call, hcall, hmakes⟩ := (hI.attended id p hp).call i hi
      refine .call i call hphase (fun id' p' hp' hphase' => ?_) hcall hmakes
        fun result hresult => ?_
      · exact hI.once id' id p' p i hp' hp (by rw [hphase']; rfl) hi
      · obtain ⟨request, phase⟩ := call
        obtain rfl : phase = .returned result := hresult
        simp only [handle, respond, hp, hphase, hcall]
        rfl

/-! ### The books -/

/-- The request is answered. -/
def Output.answers (id : RequestId) : Output → Bool
  | .sent _ => false
  | .response id' _ => id' = id

/-- The request waits for an answer. -/
def State.waits (s : State) (id : RequestId) : ℕ := if (s.pending id).isSome then 1 else 0

/-- The request has arrived. -/
def State.arrived (s : State) (id : RequestId) : ℕ := if id < s.next then 1 else 0

/-- The request ends with the process. -/
def State.lost (s : State) (id : RequestId) : Event → ℕ
  | .server e => if ends e then s.waits id else 0
  | _ => 0

private theorem countP_sent (id : RequestId) (out : List Gateway.Output) :
    (out.map Output.sent).countP (Output.answers id) = 0 := by
  rw [List.countP_eq_zero]
  rintro x hx htrue
  obtain ⟨y, -, rfl⟩ := List.mem_map.mp hx
  cases htrue

private theorem countP_response (id id' : RequestId) (response : Response) :
    [Output.response id' response].countP (Output.answers id) =
      if id' = id ∧ (none : Option Pending) = none then 1 else 0 := by
  rw [List.countP_singleton]
  simp [Output.answers]

/-- The books of a request in one step. -/
def Balanced (s : State) (e : Event) (s' : State) (out : List Output) (id : RequestId) : Prop :=
  out.countP (Output.answers id) + s.lost id e + s'.waits id + s.arrived id =
    s.waits id + s'.arrived id

/-- A pending request is answered, or goes on waiting. -/
private theorem balanced_of_pending (id : RequestId) {id' : RequestId} {p : Pending}
    {p' : Option Pending} (hp : s.pending id' = some p)
    (hpending : s'.pending = Function.update s.pending id' p') (hnext : s'.next = s.next)
    (hlost : s.lost id e = 0)
    (hcount : out.countP (Output.answers id) = if id' = id ∧ p' = none then 1 else 0) :
    Balanced s e s' out id := by
  rw [Balanced, hcount, hlost, State.arrived, State.arrived, hnext, State.waits, State.waits,
    hpending]
  by_cases hid : id' = id
  · subst hid
    rw [Function.update_self, hp]
    cases p' <;> simp
  · rw [Function.update_of_ne (Ne.symm hid), if_neg fun h => hid h.1]
    omega

/-- A request that arrives is answered, or waits. -/
private theorem balanced_of_next (id : RequestId) {p' : Option Pending} (hI : Inv F N verify s)
    (hpending : s'.pending = Function.update s.pending s.next p') (hnext : s'.next = s.next + 1)
    (hlost : s.lost id e = 0)
    (hcount : out.countP (Output.answers id) = if s.next = id ∧ p' = none then 1 else 0) :
    Balanced s e s' out id := by
  rw [Balanced, hcount, hlost, State.arrived, State.arrived, hnext, State.waits, State.waits,
    hpending]
  by_cases hid : s.next = id
  · subst hid
    rw [Function.update_self, hI.pending_next, if_neg (lt_irrefl s.next),
      if_pos (Nat.lt_succ_self s.next)]
    cases p' <;> simp
  · have hle : id < s.next + 1 ↔ id < s.next :=
      ⟨fun h => lt_of_le_of_ne (Nat.le_of_lt_succ h) (Ne.symm hid), Nat.lt_succ_of_lt⟩
    rw [Function.update_of_ne (Ne.symm hid), if_neg fun h => hid h.1]
    simp only [hle]
    omega

/-- **One step**: who arrives waits, and who waits is answered, goes on waiting or is lost. -/
private theorem balanced_of_step (hI : Inv F N verify s)
    (h : step F N verify lex hash s e = some s') (id : RequestId) :
    Balanced s e s' (outputs F N verify lex hash s e) id := by
  rw [step_eq_some] at h
  generalize outputs F N verify lex hash s e = out at h ⊢
  cases handle_cases h with
  | rejected r exception he hs' hout =>
      subst he hs' hout
      exact balanced_of_next id hI rfl rfl rfl (countP_response id s.next _)
  | arrived r body payload he hexpressible hbody hpayload hs' hout =>
      subst he hs' hout
      exact balanced_of_next id hI rfl rfl rfl (by simp)
  | refused id' p exception he hp hs' hout =>
      have hlost : s.lost id e = 0 := by
        rcases he with ⟨reply, rfl⟩ | ⟨rfl, -⟩ <;> rfl
      subst hs' hout
      exact balanced_of_pending id hp rfl rfl hlost (countP_response id id' _)
  | responded id' p i call result he hp hphase hcall hresult hs' hout =>
      subst he hs' hout
      exact balanced_of_pending id hp rfl rfl rfl (countP_response id id' _)
  | guarded id' reply p command phase he hp hcommand hphase hs' hout =>
      subst he hs' hout
      exact balanced_of_pending id hp rfl rfl rfl (by simp)
  | executed id' p f server sent he hp hf hserver hs' hout =>
      subst he hs' hout
      refine balanced_of_pending id hp rfl rfl rfl ?_
      rw [countP_sent, if_neg fun h => Option.some_ne_none _ h.2]
  | moved f server sent he hf hserver hs' hout =>
      subst he hs' hout
      rw [Balanced, countP_sent, State.lost]
      cases ends f with
      | true => simp [State.waits, State.arrived]
      | false => simp [State.waits, State.arrived]

private theorem balance_of_exec {es : List Event} (id : RequestId) (hI : Inv F N verify s)
    (hes : exec (step F N verify lex hash) s es = some s') :
    (trace (step F N verify lex hash) (outputs F N verify lex hash) s es).countP
          (Output.answers id) +
        ((path (step F N verify lex hash) s es).map fun x => x.1.lost id x.2).sum +
        s'.waits id + s.arrived id = s.waits id + s'.arrived id := by
  induction es generalizing s with
  | nil =>
      cases hes
      simp [path]
  | cons e es ih =>
      rw [exec_cons, Option.bind_eq_some_iff] at hes
      obtain ⟨s₁, hstep, hes⟩ := hes
      have hfirst : Balanced s e s₁ (outputs F N verify lex hash s e) id :=
        balanced_of_step hI hstep id
      have hrest := ih (hI.step hstep) hes
      rw [trace_cons es hstep, path_cons es hstep, List.countP_append, List.map_cons,
        List.sum_cons]
      unfold Balanced at hfirst
      dsimp only
      omega

/-- **Every request is answered once**, unless it still waits or the process has ended before;
and one that waits can go on, whatever else has happened in the run. -/
theorem answers_balance (F : Format) (N : Framework) (verify : String → Except String Json)
    (lex : Lexical) (hash : NodeContentOperationBody → String) (nodes : NodeId → Option NodeRow)
    (memberships : UserId → WorkspaceId → Option Role) {es : List Event} {s : State}
    (hes : exec (step F N verify lex hash) (.init nodes memberships) es = some s) :
    (∀ id, (trace (step F N verify lex hash) (outputs F N verify lex hash)
          (.init nodes memberships) es).countP (Output.answers id) +
        ((path (step F N verify lex hash) (.init nodes memberships) es).map
          fun x => x.1.lost id x.2).sum + s.waits id = s.arrived id) ∧
    ∀ id p, s.pending id = some p → Proceeds F N verify lex hash s id p := by
  refine ⟨fun id => ?_, fun id p hp => (inv_of_exec hes).proceeds hp⟩
  have hbalance := balance_of_exec id (Inv.init nodes memberships) hes
  have hinit : (State.init nodes memberships).waits id = 0 := rfl
  have harrived : (State.init nodes memberships).arrived id = 0 := if_neg (Nat.not_lt_zero id)
  omega

/-- One request is let in, while another one shows no token. -/
def twoRequests : List Event :=
  [.request appendRequest, .request { appendRequest with credentials := ⟨none, none⟩ },
    .redisReply 0 .ok, .execute 0]

/-- The second request has been answered, and the first one waits for its call. -/
theorem twoRequests_balance :
    ∃ s, exec (step Redis.plainFormat plainFramework oneToken .plain fun _ => "")
        (.init (fun _ => none) fun _ _ => none) twoRequests = some s ∧
      (∀ id, (trace (step Redis.plainFormat plainFramework oneToken .plain fun _ => "")
            (outputs Redis.plainFormat plainFramework oneToken .plain fun _ => "")
            (.init (fun _ => none) fun _ _ => none) twoRequests).countP (Output.answers id) +
          ((path (step Redis.plainFormat plainFramework oneToken .plain fun _ => "")
            (.init (fun _ => none) fun _ _ => none) twoRequests).map
              fun x => x.1.lost id x.2).sum + s.waits id = s.arrived id) ∧
      ∀ id p, s.pending id = some p →
        Proceeds Redis.plainFormat plainFramework oneToken .plain (fun _ => "") s id p := by
  have hsome : (exec (step Redis.plainFormat plainFramework oneToken .plain fun _ => "")
      (.init (fun _ => none) fun _ _ => none) twoRequests).isSome = true := by
    decide +kernel
  obtain ⟨s, hs⟩ := Option.isSome_iff_exists.mp hsome
  exact ⟨s, hs, answers_balance Redis.plainFormat plainFramework oneToken .plain (fun _ => "")
    _ _ hs⟩

/-! ### What a client is told -/

/-- No exception is taken for a response. -/
private theorem catchException_ne (exception : Exception) (data : Option Json) :
    (AllExceptionsFilter.catchException exception).body ≠ ResponseInterceptor.intercept data := by
  intro h
  have htype := congrArg (fun body => body.get "resultType") h
  have hintercept : (ResponseInterceptor.intercept data).get "resultType" =
      some (.string "SUCCESS") := rfl
  have hcatch : (AllExceptionsFilter.catchException exception).body.get "resultType" =
      some (.string "FAIL") := by
    cases exception <;> rfl
  rw [hcatch, hintercept] at htype
  exact absurd (Json.string.inj (Option.some.inj htype)) (by decide)

/-- The response that a client is shown says what it is. -/
private theorem intercept_inj {response response' : NodeContentOperationResponse}
    (h : ResponseInterceptor.intercept (some (Redis.responseJson F.names response)) =
      ResponseInterceptor.intercept (some (Redis.responseJson F.names response'))) :
    response = response' := by
  have hdata := congrArg (fun body => body.get "success") h
  have hsuccess (r : NodeContentOperationResponse) :
      (ResponseInterceptor.intercept (some (Redis.responseJson F.names r))).get "success" =
        some (Redis.responseJson F.names r) := rfl
  rw [hsuccess, hsuccess] at hdata
  have hread := congrArg (Redis.readResponse F.names) (Option.some.inj hdata)
  rw [Redis.readResponse_responseJson, Redis.readResponse_responseJson] at hread
  exact Option.some.inj hread

/-- A response that is no exception is what the call of the request has returned. -/
private theorem returned_of_response {id : RequestId} {response : NodeContentOperationResponse}
    {answer : Response} (h : .response id answer ∈ outputs F N verify lex hash s e)
    (hanswer : answer.body =
      ResponseInterceptor.intercept (some (Redis.responseJson F.names response))) :
    ∃ p i call, s.pending id = some p ∧ p.phase = .executing i ∧
      s.server.app.service.calls i = some call ∧
      call.phase = .returned (.ok (some response)) := by
  unfold outputs at h
  cases hhandle : handle F N verify lex hash s e with
  | none =>
      rw [hhandle] at h
      cases h
  | some x =>
  obtain ⟨s', out⟩ := x
  have hmem : Output.response id answer ∈ out := by
    rw [hhandle] at h
    exact h
  have hsent {sent : List Gateway.Output} (hout : out = sent.map .sent) : False := by
    rw [hout] at hmem
    obtain ⟨y, -, hy⟩ := List.mem_map.mp hmem
    cases hy
  cases handle_cases hhandle with
  | rejected r exception he hs' hout =>
      rw [hout] at hmem
      cases List.mem_singleton.mp hmem
      exact absurd hanswer (catchException_ne exception _)
  | arrived r body payload he hexpressible hbody hpayload hs' hout =>
      rw [hout] at hmem
      cases hmem
  | refused id' p exception he hp hs' hout =>
      rw [hout] at hmem
      cases List.mem_singleton.mp hmem
      exact absurd hanswer (catchException_ne exception _)
  | responded id' p i call result he hp hphase hcall hresult hs' hout =>
      rw [hout] at hmem
      cases List.mem_singleton.mp hmem
      refine ⟨p, i, call, hp, hphase, hcall, ?_⟩
      rw [hresult]
      cases result with
      | error error => exact absurd hanswer (catchException_ne _ _)
      | ok returned =>
          cases returned with
          | none => cases hanswer
          | some response' => rw [intercept_inj hanswer]
  | guarded id' reply p command phase he hp hcommand hphase hs' hout =>
      rw [hout] at hmem
      cases hmem
  | executed id' p f server sent he hp hf hserver hs' hout => exact (hsent hout).elim
  | moved f server sent he hf hserver hs' hout => exact (hsent hout).elim

variable (F N verify lex hash) in
/-- The operation of a request has been executed: the request has arrived, the call `i` has been
made for it, and all who were in the room of its node when the append of that call was done
have been sent its update.  `fs` is the run as the process over tables sees it. -/
inductive Executed (nodes : NodeId → Option NodeRow)
    (memberships : UserId → WorkspaceId → Option Role) (es : List Event) (s : State)
    (id : RequestId) (r : Request) : Prop
  | intro (arrival : State) (i : CallId) (call : NodeContent.Call) (fs : List App.Event)
      (T : Tables)
      (harrival : (arrival, Event.request r) ∈
        path (step F N verify lex hash) (.init nodes memberships) es)
      (hid : arrival.next = id) (hcall : s.server.app.service.calls i = some call)
      (hmakes : Makes F N verify r call.request)
      (hfs : exec (App.step lex (identified F verify) hash) (.init nodes memberships) fs =
        some (T.into s.server.app))
      (htrace : trace (App.step lex (identified F verify) hash)
          (Redis.Process.listedOutputs F lex (identified F verify) hash) (.init nodes memberships)
          fs =
        (trace (step F N verify lex hash) (outputs F N verify lex hash) (.init nodes memberships)
          es).filterMap Output.socket)
      (hannounced : App.Announced lex (identified F verify) hash (.init nodes memberships) fs i
        r.nodeId)

/-- The call is one on the node of the request. -/
private theorem nodeId_of_makes {r : Request} {request : NodeContent.Request}
    (h : Makes F N verify r request) : request.nodeId = r.nodeId := by
  obtain ⟨payload, userId, body, -, -, -, hrequest⟩ := h
  obtain ⟨key, -, rfl⟩ := NodeContent.executeContentOperation_eq_ok hrequest
  rfl

/-- **Who is told of success can rely on it.**  Before a client is shown the response of an
operation of its own, that operation has been executed, and its update has been sent. -/
theorem acknowledged_sent (F : Format) (N : Framework) (verify : String → Except String Json)
    (lex : Lexical) (hash : NodeContentOperationBody → String) (nodes : NodeId → Option NodeRow)
    (memberships : UserId → WorkspaceId → Option Role) {es : List Event} {s : State} {e : Event}
    {id : RequestId} {answer : Response} {response : NodeContentOperationResponse}
    (hes : exec (step F N verify lex hash) (.init nodes memberships) es = some s)
    (hresponse : .response id answer ∈ outputs F N verify lex hash s e)
    (hanswer : answer.body =
      ResponseInterceptor.intercept (some (Redis.responseJson F.names response)))
    (hown : response.duplicate = false) :
    ∃ r, Executed F N verify lex hash nodes memberships es s id r ∧
      response.nodeId = r.nodeId := by
  obtain ⟨p, i, call, hp, hphase, hcall, hreturned⟩ := returned_of_response hresponse hanswer
  -- the call is the one that the controller has made for this request
  obtain ⟨call', hcall', hmakes⟩ :=
    ((inv_of_exec hes).attended id p hp).call i (by rw [hphase]; rfl)
  obtain rfl : call' = call := Option.some.inj (hcall'.symm.trans hcall)
  obtain ⟨arrival, asked, payload, token, -, -, -, hid, -, hmoments⟩ :=
    (history_of_exec hes).pending id p hp
  obtain ⟨fs, T, hfs, htrace, -⟩ := process_of_run F N verify lex hash nodes memberships hes
  have hcalls : (T.into s.server.app).service.calls i = some call' := hcall
  obtain ⟨hnode, hannounced⟩ := App.sent_of_returned hfs hcalls hreturned hown
  rw [nodeId_of_makes hmakes] at hnode hannounced
  exact ⟨p.request, .intro arrival i call' fs T (hmoments.subset (List.mem_cons_self ..)) hid hcall
    hmakes hfs htrace hannounced, hnode⟩

/-- The call claims its key, the append runs and is saved, and the call returns. -/
def executedRun : List Event :=
  requestedRun ++
  [.server (.process (.app (.service (.membershipReply 0 true)))),
    .server (.process (.app (.service (.nodeReply 0 true)))),
    .server (.process (.callReply 0 .ok)), .server (.process (.callReply 0 .ok)),
    gateway (.manager (.startTask 0)), gateway (.manager (.resumeAppend 0 100)),
    .server (.process (.managerReply .ok)), gateway (.manager (.updateNodeRow 0 .ok 20)),
    .server (.process (.attachmentsSynced 0 .ok)), gateway (.manager (.continueFlush 0)),
    .server (.process (.enqueued 0 .ok)), .server (.process (.app (.resume 0 55 true))),
    .server (.process (.callReply 0 .ok))]

/-- The response that user `9` is shown. -/
def shownResponse : NodeContentOperationResponse where
  operationId := 55
  nodeId := 1
  operation := .APPEND_MARKDOWN
  previousVersion := 0
  version := 1
  updatedAt := 20
  duplicate := false

/-- The response is shown when the controller returns. -/
private theorem response_mem {p : Pending} {i : NodeContent.CallId} {call : NodeContent.Call}
    {response : NodeContentOperationResponse} {id : RequestId} (hp : s.pending id = some p)
    (hphase : p.phase.call = some i) (hcall : s.server.app.service.calls i = some call)
    (hresponse : call.phase.response = some response) :
    .response id (answer N.texts F.names (.ok (some response))) ∈
      outputs F N verify lex hash s (.respond id) := by
  obtain ⟨request, phase⟩ := call
  have hphase' : p.phase = .executing i := by
    unfold Phase.call at hphase
    split at hphase
    · next heq => rw [heq, Option.some.inj hphase]
    · cases hphase
  have hreturned : phase = .returned (.ok (some response)) := by
    unfold NodeContent.Phase.response at hresponse
    split at hresponse
    · next heq => exact heq.trans (by rw [hresponse])
    · cases hresponse
  rw [hreturned] at hcall
  have hhandle : handle F N verify lex hash s (.respond id) =
      some (answered s id (answer N.texts F.names (.ok (some response)))) := by
    simp only [handle, respond, hp, hphase', hcall]
  rw [outputs, hhandle]
  exact List.mem_singleton_self _

/-- The operation had been executed, and sent, before user `9` was shown the response. -/
theorem executedRun_acknowledged :
    ∃ s r, exec (step Redis.plainFormat plainFramework oneToken .plain fun _ => "")
        (.init NodeContent.Server.oneNode NodeContent.Server.editors) executedRun = some s ∧
      Executed Redis.plainFormat plainFramework oneToken .plain (fun _ => "")
        NodeContent.Server.oneNode NodeContent.Server.editors executedRun s 0 r ∧
      shownResponse.nodeId = r.nodeId := by
  have hrun : (exec (step Redis.plainFormat plainFramework oneToken .plain fun _ => "")
      (.init NodeContent.Server.oneNode NodeContent.Server.editors) executedRun).any
        (fun s => decide ((s.pending 0).bind (fun p => p.phase.call) = some 0) &&
          decide ((s.server.app.service.calls 0).bind (fun call => call.phase.response) =
            some shownResponse)) = true := by
    decide +kernel
  obtain ⟨s, hs, hshown⟩ := (Option.any_eq_true _ _).mp hrun
  rw [Bool.and_eq_true, decide_eq_true_iff, decide_eq_true_iff, Option.bind_eq_some_iff,
    Option.bind_eq_some_iff] at hshown
  obtain ⟨⟨p, hp, hphase⟩, call, hcall, hresponse⟩ := hshown
  obtain ⟨r, hexecuted, hnode⟩ := acknowledged_sent Redis.plainFormat plainFramework oneToken .plain
    (fun _ => "") _ _ hs (response_mem hp hphase hcall hresponse) rfl rfl
  exact ⟨s, r, hs, hexecuted, hnode⟩

end AideepWebsocket.Http.Server
