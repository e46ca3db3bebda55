import AideepWebsocket.EventBus.Server
import AideepWebsocket.Gateway.Tokens
import AideepWebsocket.Http.Exceptions
import AideepWebsocket.Http.Validation

/-!
# The server

Here the requests of HTTP join the channel and the sockets.  An operation begins with a
request; its body is read, its token is verified and looked up in Redis, its body is
checked, and only then `executeContentOperation` is called.  Between these there are
awaits, at which everything else that the server does can come in.

* `handle` — one step: a request arrives, its guard or its controller goes on, it is
  answered; or the rest of the server takes a step;
* `process_of_run` — **HTTP adds nothing but operations**: each run is one of the process over
  tables that sends the same to the sockets, and in which the operations are those that
  the controller has called.

Left out are the requests that pass every check with a body that is foreign, or with a token
whose user the model has no name for: they do not arrive (`expressible`).  Nest, `passport` and
`class-validator` come in as a `Framework`.
-/

namespace AideepWebsocket.Http

open Library
open Library.Redis (Answer Command)
open DocManager (NodeRow Reply)
open Gateway (Role userIdOf)
open Gateway.JwtStrategy (isMaster)
open NodeContent (CallId NodeContentOperationBody NodeContentOperationResponse)
open Redis (Format Tables jsonText)
open Redis.Process (issued)

abbrev RequestId := ℕ

/-- A request for `executeContentOperation`. -/
structure Request where
  credentials : Gateway.JwtStrategy.Request
  workspaceId : WorkspaceId
  nodeId : NodeId
  idempotencyKey : Option String
  body : String

/-- What the server is built on. -/
structure Framework where
  texts : StatusTexts
  /-- How `class-validator` counts the characters of a string. -/
  length : String → ℕ
  /-- What it says of what is violated. -/
  messages : List Violation → List String
  /-- What Nest makes of an error of `express.json`. -/
  parseException : ParseError → Exception

/-- Where a request is suspended: its guard awaits one of two commands of Redis, or has let
it in; or its controller awaits the call. -/
inductive Phase
  | blacklist (payload : Json)
  | masterToken (payload : Json)
  | admitted (payload : Json)
  | executing (i : CallId)

structure Pending where
  request : Request
  body : Json
  phase : Phase

namespace Server

structure State where
  server : Redis.Process.State
  pending : RequestId → Option Pending
  next : RequestId

inductive Event
  | request (request : Request)
  /-- The command that the guard awaits ends. -/
  | redisReply (id : RequestId) (reply : Reply)
  /-- The guard has let the request in, and the controller is called. -/
  | execute (id : RequestId)
  /-- The call has returned, and the controller with it. -/
  | respond (id : RequestId)
  | server (e : EventBus.Server.Event)

inductive Output
  | sent (out : Gateway.Output)
  | response (id : RequestId) (response : Response)

namespace State

def init (nodes : NodeId → Option NodeRow) (memberships : UserId → WorkspaceId → Option Role) :
    State where
  server := .init nodes memberships
  pending _ := none
  next := 0

def setPending (s : State) (id : RequestId) (p : Option Pending) : State :=
  { s with pending := Function.update s.pending id p }

@[simp] theorem setPending_self (s : State) (id : RequestId) (p : Option Pending) :
    (s.setPending id p).pending id = p := Function.update_self ..

theorem setPending_of_ne {id id' : RequestId} (s : State) (p : Option Pending) (h : id' ≠ id) :
    (s.setPending id p).pending id' = s.pending id' := Function.update_of_ne h ..

end State

variable (F : Format) (N : Framework) (verify : String → Except String Json)

/-! ### The guard -/

/-- The payload of a token that is there and has been verified. -/
def authenticate (credentials : Gateway.JwtStrategy.Request) : Option Json :=
  match credentials.token with
  | none => none
  | some token => if token = "" then none else (verify token).toOption

/-- The user of a payload. -/
def userOf (payload : Json) : Option UserId := (userIdOf payload).bind F.names.user.read

/-- The user of a token, for the gateway. -/
def identified (token : String) : Option UserId :=
  (Gateway.authenticate verify (some token)).toOption.bind F.names.user.read

/-- The command that the guard awaits. -/
def guardCommand (p : Pending) : Option Command :=
  match p.phase with
  | .blacklist _ => some (.get (F.key (.BLACKLIST (p.request.credentials.token.getD "null"))))
  | .masterToken payload =>
      some (.get (F.key (.MASTER_TOKEN (((payload.get "user_id").map Json.text).getD "undefined"))))
  | .admitted _ | .executing _ => none

/-- `new UnauthorizedException(message)`. -/
def unauthorized (message : String) : Exception :=
  .httpException (withMessage N.texts 401 message)

/-- The guard goes on with what the blacklist holds. -/
def afterBlacklist (payload : Json) : Option Answer → Except Exception Phase
  | none | some .wrongType => .error .other
  | some (.text text) =>
      if text = "" then .ok (if isMaster payload then .masterToken payload else .admitted payload)
      else .error (unauthorized N "만료된 토큰입니다.")
  | some _ => .ok (if isMaster payload then .masterToken payload else .admitted payload)

/-- The guard goes on with the master token that is stored. -/
def afterMasterToken (token : Option String) (payload : Json) :
    Option Answer → Except Exception Phase
  | none | some .wrongType => .error .other
  | some (.text stored) =>
      if stored = "" ∨ some stored ≠ token then
        .error (unauthorized N "만료/폐기된 마스터 토큰입니다.")
      else .ok (.admitted payload)
  | some _ => .error (unauthorized N "만료/폐기된 마스터 토큰입니다.")

def afterCommand (p : Pending) (answer : Option Answer) : Except Exception Phase :=
  match p.phase with
  | .blacklist payload => afterBlacklist N payload answer
  | .masterToken payload => afterMasterToken N p.request.credentials.token payload answer
  | phase => .ok phase

/-! ### The controller -/

/-- The call of the service, if the checks before it are passed. -/
def operation (p : Pending) : Option (Except Exception App.Event) :=
  match p.phase with
  | .admitted payload =>
      match violations N.length p.body with
      | [] =>
          match readBody p.body, userOf F payload with
          | some body, some userId =>
              match NodeContent.executeContentOperation userId p.request.workspaceId
                  p.request.nodeId p.request.idempotencyKey body with
              | .error error => some (.error (exceptionOf N.texts error))
              | .ok _ => some (.ok (.service (.execute userId p.request.workspaceId
                  p.request.nodeId p.request.idempotencyKey body)))
          | _, _ => none
      | found => some (.error (.httpException (withMessages N.texts 400 (N.messages found))))
  | _ => none

/-- The model has words for the request: if its token is good and its body passes, there is a user
and the body is not foreign. -/
def expressible (r : Request) : Bool :=
  match parseBody F.numeral r.body, authenticate verify r.credentials with
  | .ok body, some payload =>
      violations N.length body ≠ [] || (readBody body).isSome && (userOf F payload).isSome
  | _, _ => true

/-! ### Steps -/

/-- A request is answered. -/
def answered (s : State) (id : RequestId) (response : Response) : State × List Output :=
  (s.setPending id none, [.response id response])

def thrown (s : State) (id : RequestId) (exception : Exception) : State × List Output :=
  answered s id (AllExceptionsFilter.catchException exception)

/-- A request arrives. -/
def arrive (s : State) (r : Request) : State × List Output :=
  let s' := { s with next := s.next + 1 }
  match parseBody F.numeral r.body with
  | .error error => thrown s' s.next (N.parseException error)
  | .ok body =>
      match authenticate verify r.credentials with
      | none => thrown s' s.next (.httpException (withoutMessage N.texts 401))
      | some payload => (s'.setPending s.next (some ⟨r, body, .blacklist payload⟩), [])

/-- The command that the guard awaits ends; it reads, and so leaves the store as it is. -/
def redisReply (s : State) (id : RequestId) (reply : Reply) : Option (State × List Output) :=
  match s.pending id with
  | none => none
  | some p =>
      match guardCommand F p with
      | none => none
      | some command =>
          match afterCommand N p (issued F s.server.store command reply).2 with
          | .error exception => some (thrown s id exception)
          | .ok phase => some (s.setPending id (some { p with phase := phase }), [])

variable (lex : Lexical) (hash : NodeContentOperationBody → String)

/-- The rest of the server takes a step. -/
def move (s : State) (e : EventBus.Server.Event) :
    Option (Redis.Process.State × List Gateway.Output) :=
  EventBus.Server.handle F lex hash (identified F verify) s.server e

/-- The controller is called. -/
def execute (s : State) (id : RequestId) : Option (State × List Output) :=
  match s.pending id with
  | none => none
  | some p =>
      match operation F N p with
      | none => none
      | some (.error exception) => some (thrown s id exception)
      | some (.ok e) =>
          (move F verify lex hash s (.process (.app e))).map fun (server, out) =>
            ({ s with server := server }.setPending id
              (some { p with phase := .executing s.server.app.service.nextCall }), out.map .sent)

/-- The controller returns, if its call has. -/
def respond (s : State) (id : RequestId) : Option (State × List Output) :=
  match s.pending id with
  | none => none
  | some p =>
      match p.phase with
      | .executing i =>
          match s.server.app.service.calls i with
          | some ⟨_, .returned result⟩ => some (answered s id (answer N.texts F.names result))
          | _ => none
      | _ => none

/-- The process ends, and its requests with it. -/
def ends : EventBus.Server.Event → Bool
  | .process (.app .restart) => true
  | _ => false

/-- An operation that is requested by nobody. -/
def unrequested : EventBus.Server.Event → Bool
  | .process (.app e) => Redis.Process.requested e
  | _ => false

/-- One step, with what it sends. -/
def handle (s : State) : Event → Option (State × List Output)
  | .request r => if expressible F N verify r then some (arrive F N verify s r) else none
  | .redisReply id reply => redisReply F N s id reply
  | .execute id => execute F N verify lex hash s id
  | .respond id => respond F N s id
  | .server e =>
      if unrequested e then none
      else (move F verify lex hash s e).map fun (server, out) =>
        ({ s with server := server, pending := if ends e then fun _ => none else s.pending },
          out.map .sent)

def step (s : State) (e : Event) : Option State := (handle F N verify lex hash s e).map Prod.fst

/-- What a step sends. -/
def outputs (s : State) (e : Event) : List Output :=
  ((handle F N verify lex hash s e).map Prod.snd).getD []

variable {F N verify lex hash} {s s' : State} {e : Event} {out : List Output}

theorem step_eq_some :
    step F N verify lex hash s e = some s' ↔
      handle F N verify lex hash s e = some (s', outputs F N verify lex hash s e) := by
  unfold step outputs
  cases handle F N verify lex hash s e with
  | none => simp
  | some p => simp [Prod.ext_iff]

variable (F N verify lex hash) in
/-- What a step can be. -/
inductive StepCase (s : State) (e : Event) (s' : State) (out : List Output) : Prop
  | rejected (r : Request) (exception : Exception) (he : e = .request r)
      (hs' : s' = { s with next := s.next + 1 }.setPending s.next none)
      (hout : out = [.response s.next (AllExceptionsFilter.catchException exception)])
  | arrived (r : Request) (body payload : Json) (he : e = .request r)
      (hexpressible : expressible F N verify r = true)
      (hbody : parseBody F.numeral r.body = .ok body)
      (hpayload : authenticate verify r.credentials = some payload)
      (hs' : s' = { s with next := s.next + 1 }.setPending s.next
        (some ⟨r, body, .blacklist payload⟩)) (hout : out = [])
  | refused (id : RequestId) (p : Pending) (exception : Exception)
      (he : (∃ reply, e = .redisReply id reply) ∨
        e = .execute id ∧ operation F N p = some (.error exception)) (hp : s.pending id = some p)
      (hs' : s' = s.setPending id none)
      (hout : out = [.response id (AllExceptionsFilter.catchException exception)])
  | responded (id : RequestId) (p : Pending) (i : CallId) (call : NodeContent.Call)
      (result : Except NodeContent.OperationError (Option NodeContentOperationResponse))
      (he : e = .respond id) (hp : s.pending id = some p) (hphase : p.phase = .executing i)
      (hcall : s.server.app.service.calls i = some call) (hresult : call.phase = .returned result)
      (hs' : s' = s.setPending id none)
      (hout : out = [.response id (answer N.texts F.names result)])
  | guarded (id : RequestId) (reply : Reply) (p : Pending) (command : Command) (phase : Phase)
      (he : e = .redisReply id reply) (hp : s.pending id = some p)
      (hcommand : guardCommand F p = some command)
      (hphase : afterCommand N p (issued F s.server.store command reply).2 = .ok phase)
      (hs' : s' = s.setPending id (some { p with phase := phase })) (hout : out = [])
  | executed (id : RequestId) (p : Pending) (f : App.Event) (server : Redis.Process.State)
      (sent : List Gateway.Output) (he : e = .execute id) (hp : s.pending id = some p)
      (hf : operation F N p = some (.ok f))
      (hserver : move F verify lex hash s (.process (.app f)) = some (server, sent))
      (hs' : s' = { s with server := server }.setPending id
        (some { p with phase := .executing s.server.app.service.nextCall }))
      (hout : out = sent.map .sent)
  | moved (f : EventBus.Server.Event) (server : Redis.Process.State)
      (sent : List Gateway.Output) (he : e = .server f) (hf : unrequested f = false)
      (hserver : move F verify lex hash s f = some (server, sent))
      (hs' : s' = { s with
        server := server, pending := if ends f then fun _ => none else s.pending })
      (hout : out = sent.map .sent)

theorem handle_cases (h : handle F N verify lex hash s e = some (s', out)) :
    StepCase F N verify lex hash s e s' out := by
  cases e with
  | request r =>
      simp only [handle, arrive] at h
      split at h
      · next hexpressible =>
          split at h
          · cases h
            exact .rejected r _ rfl rfl rfl
          · next body hbody =>
              split at h
              · cases h
                exact .rejected r _ rfl rfl rfl
              · next payload hpayload =>
                  cases h
                  exact .arrived r body payload rfl hexpressible hbody hpayload rfl rfl
      · cases h
  | redisReply id reply =>
      simp only [handle, redisReply] at h
      split at h
      · cases h
      · next p hp =>
          split at h
          · cases h
          · next command hcommand =>
              split at h
              · cases h
                exact .refused id p _ (Or.inl ⟨reply, rfl⟩) hp rfl rfl
              · next phase hphase =>
                  cases h
                  exact .guarded id reply p command phase rfl hp hcommand hphase rfl rfl
  | execute id =>
      simp only [handle, execute] at h
      split at h
      · cases h
      · next p hp =>
          split at h
          · cases h
          · next exception hrefused =>
              cases h
              exact .refused id p exception (Or.inr ⟨rfl, hrefused⟩) hp rfl rfl
          · next f hf =>
              obtain ⟨⟨server, sent⟩, hserver, heq⟩ := Option.map_eq_some_iff.mp h
              cases heq
              exact .executed id p f server sent rfl hp hf hserver rfl rfl
  | respond id =>
      simp only [handle, respond] at h
      split at h
      · cases h
      · next p hp =>
          split at h
          · next i hphase =>
              split at h
              · next request result hcall =>
                  cases h
                  exact .responded id p i _ result rfl hp hphase hcall rfl rfl rfl
              · cases h
          · cases h
  | server f =>
      simp only [handle] at h
      split at h
      · cases h
      · next hf =>
          obtain ⟨⟨server, sent⟩, hserver, heq⟩ := Option.map_eq_some_iff.mp h
          cases heq
          exact .moved f server sent rfl (Bool.eq_false_iff.mpr hf) hserver rfl rfl

/-- **What has no words** is a body that passes and is foreign, or a user without a name, and
nothing
else. -/
theorem expressible_eq_false_iff {r : Request} :
    expressible F N verify r = false ↔
      ∃ body payload, parseBody F.numeral r.body = .ok body ∧
        authenticate verify r.credentials = some payload ∧ violations N.length body = [] ∧
        (Foreign body ∨ userOf F payload = none) := by
  constructor
  · intro h
    unfold expressible at h
    split at h
    · next body payload hbody hpayload =>
        rw [Bool.or_eq_false_iff, decide_eq_false_iff_not, Decidable.not_not,
          Bool.and_eq_false_iff] at h
        obtain ⟨hviolations, hread | huser⟩ := h
        · have hforeign : Foreign body := by
            by_contra hnot
            rw [(isSome_readBody_iff hviolations).mpr hnot] at hread
            cases hread
          exact ⟨body, payload, hbody, hpayload, hviolations, Or.inl hforeign⟩
        · exact ⟨body, payload, hbody, hpayload, hviolations,
            Or.inr (Option.not_isSome_iff_eq_none.mp (Bool.eq_false_iff.mp huser))⟩
    · cases h
  · rintro ⟨body, payload, hbody, hpayload, hviolations, h⟩
    rw [expressible, hbody, hpayload]
    rcases h with hforeign | huser
    · simp [hviolations, readBody_of_foreign hforeign]
    · simp [hviolations, huser]

/-! ### What HTTP adds -/

/-- What is sent to the sockets. -/
def Output.socket : Output → Option Gateway.Output
  | .sent out => some out
  | .response _ _ => none

/-- What the process is told: as before, and the operation when the controller is called. -/
def said (F : Format) (N : Framework) (s : State) : Event → List App.Event
  | .execute id =>
      match (s.pending id).bind (operation F N) with
      | some (.ok f) => [f]
      | _ => []
  | .server e => EventBus.Server.said F e
  | _ => []

/-- What a step sends to the sockets, and what was said in it. -/
def observed (F : Format) (N : Framework) (verify : String → Except String Json) (lex : Lexical)
    (hash : NodeContentOperationBody → String) :
    State → Event → List (Gateway.Output ⊕ App.Event) :=
  both (fun s e => (outputs F N verify lex hash s e).filterMap Output.socket) (said F N)

private theorem filterMap_sent (out : List Gateway.Output) :
    (out.map Output.sent).filterMap Output.socket = out := by
  rw [List.filterMap_map]
  exact List.filterMap_some

/-- What the controller calls is an operation. -/
private theorem requested_operation {p : Pending} {f : App.Event}
    (hf : operation F N p = some (.ok f)) : Redis.Process.requested f = true := by
  unfold operation at hf
  split at hf
  · split at hf
    · split at hf
      · split at hf
        · cases hf
        · cases hf
          rfl
      · cases hf
    · cases hf
  · cases hf

/-- The requests are steps of the server that they join, or no steps at all. -/
def simulation (F : Format) (N : Framework) (verify : String → Except String Json) (lex : Lexical)
    (hash : NodeContentOperationBody → String) :
    Simulation (step F N verify lex hash) (observed F N verify lex hash)
      (EventBus.Server.step F lex hash (identified F verify))
      (EventBus.Server.observed F lex hash (identified F verify)) where
  rel s x := s.server = x
  step := by
    rintro s x e s' rfl hstep
    rw [step_eq_some] at hstep
    rw [observed, both]
    generalize outputs F N verify lex hash s e = out at hstep ⊢
    have hquiet (hserver : s'.server = s.server) (hout : out.filterMap Output.socket = [])
        (hsaid : said F N s e = []) :
        ∃ fs x, exec (EventBus.Server.step F lex hash (identified F verify)) s.server fs = some x ∧
          trace (EventBus.Server.step F lex hash (identified F verify))
              (EventBus.Server.observed F lex hash (identified F verify)) s.server fs =
            (out.filterMap Output.socket).map .inl ++ (said F N s e).map .inr ∧
          s'.server = x :=
      ⟨[], _, rfl, by rw [hout, hsaid]; rfl, hserver⟩
    have hmoved {f : EventBus.Server.Event} {server : Redis.Process.State}
        {sent : List Gateway.Output} (hserver : move F verify lex hash s f = some (server, sent))
        (hs' : s'.server = server) (hout : out = sent.map .sent)
        (hsaid : said F N s e = EventBus.Server.said F f) :
        ∃ fs x, exec (EventBus.Server.step F lex hash (identified F verify)) s.server fs = some x ∧
          trace (EventBus.Server.step F lex hash (identified F verify))
              (EventBus.Server.observed F lex hash (identified F verify)) s.server fs =
            (out.filterMap Output.socket).map .inl ++ (said F N s e).map .inr ∧
          s'.server = x := by
      have hstep' : EventBus.Server.step F lex hash (identified F verify) s.server f =
          some server := by
        rw [EventBus.Server.step, ← move, hserver]
        rfl
      refine ⟨[f], server, exec_singleton hstep', ?_, hs'⟩
      rw [trace_singleton hstep', EventBus.Server.observed, both, EventBus.Server.outputs, ← move,
        hserver, hout, filterMap_sent, hsaid]
      rfl
    cases handle_cases hstep with
    | rejected r exception he hs' hout =>
        subst he hs' hout
        exact hquiet rfl rfl rfl
    | arrived r body payload he hexpressible hbody hpayload hs' hout =>
        subst he hs' hout
        exact hquiet rfl rfl rfl
    | refused id p exception he hp hs' hout =>
        subst hs' hout
        refine hquiet rfl rfl ?_
        rcases he with ⟨reply, rfl⟩ | ⟨rfl, hrefused⟩
        · rfl
        · rw [said, hp, Option.bind_some, hrefused]
    | responded id p i call result he hp hphase hcall hresult hs' hout =>
        subst he hs' hout
        exact hquiet rfl rfl rfl
    | guarded id reply p command phase he hp hcommand hphase hs' hout =>
        subst he hs' hout
        exact hquiet rfl rfl rfl
    | executed id p f server sent he hp hf hserver hs' hout =>
        subst he hs'
        refine hmoved hserver rfl hout ?_
        rw [said, hp, Option.bind_some, hf]
        have hrequested := requested_operation hf
        have hexternal : Redis.Process.external f = true := by
          rw [Redis.Process.external, hrequested, Bool.or_true]
        simp [EventBus.Server.said, Redis.Process.told, hexternal, hrequested]
    | moved f server sent he hf hserver hs' hout =>
        subst he hs'
        exact hmoved hserver rfl hout rfl

/-- **HTTP adds nothing but operations.**  Each run is one of the process over tables that
sends the same to the sockets; the store says what the tables say; and what the process is
told are the messages that are understood and the operations that the controller has
called, in their order. -/
theorem process_of_run (F : Format) (N : Framework) (verify : String → Except String Json)
    (lex : Lexical) (hash : NodeContentOperationBody → String) (nodes : NodeId → Option NodeRow)
    (memberships : UserId → WorkspaceId → Option Role) {es : List Event} {s : State}
    (hes : exec (step F N verify lex hash) (.init nodes memberships) es = some s) :
    ∃ (fs : List App.Event) (T : Tables),
      exec (App.step lex (identified F verify) hash) (.init nodes memberships) fs =
        some (T.into s.server.app) ∧
      trace (App.step lex (identified F verify) hash)
          (Redis.Process.listedOutputs F lex (identified F verify) hash) (.init nodes memberships)
          fs =
        (trace (step F N verify lex hash) (outputs F N verify lex hash) (.init nodes memberships)
          es).filterMap Output.socket ∧
      fs.filter Redis.Process.external =
        trace (step F N verify lex hash) (said F N) (.init nodes memberships) es ∧
      F.Represents T s.server.taken s.server.store := by
  obtain ⟨gs, x, hgs, htrace, rfl⟩ := (simulation F N verify lex hash).exec rfl hes
  obtain ⟨fs, T, hfs, htrace', h⟩ := EventBus.Server.observed_of_exec hgs
  have hobserved := htrace'.trans htrace
  refine ⟨fs, T, hfs, ?_, ?_, h⟩
  · rw [← trace_filterMap]
    exact trace_left_of_both hobserved
  · have htold := trace_right_of_both hobserved
    rwa [trace_events _ hfs, ← List.filter_flatMap, List.flatMap_singleton'] at htold

/-! ### A run -/

/-- The reason phrases of the exceptions that are thrown here. -/
def reasonPhrase (status : ℕ) : String :=
  if status = 400 then "Bad Request"
  else if status = 401 then "Unauthorized"
  else if status = 404 then "Not Found"
  else if status = 409 then "Conflict"
  else if status = 422 then "Unprocessable Entity"
  else "Internal Server Error"

def plainTexts : StatusTexts where
  name status := reasonPhrase status ++ " Exception"
  description := reasonPhrase

def plainFramework : Framework where
  texts := plainTexts
  length := String.length
  messages found := found.map fun _ => "invalid"
  parseException
    | .tooLarge => .other
    | .notJson => .httpException (withMessage plainTexts 400 "Unexpected token")

/-- A secret under which there is one token. -/
def oneToken (token : String) : Except String Json :=
  if token = "token of 9" then .ok (.object [("user_id", .string "9")])
  else .error "invalid signature"

/-- A request of user `9` to append `x` to node `1`. -/
def appendRequest : Request where
  credentials := ⟨some "token of 9", none⟩
  workspaceId := 7
  nodeId := 1
  idempotencyKey := some "12345678"
  body := jsonText (bodyJson ⟨.APPEND_MARKDOWN, "x", some 0, ⟨.AGENT, "agent", none, none⟩⟩)

end Server

end AideepWebsocket.Http
