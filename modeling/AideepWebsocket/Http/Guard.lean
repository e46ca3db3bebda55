import AideepWebsocket.Http.Server

/-!
# Who gets an operation executed

The guard of the controller asks Redis once, and for a master token twice; in the meantime
the API server may revoke the token, and other requests go on.  So what can be said of an
operation is said of the moments of the run at which its request went on:

  the request arrives — Redis is asked — (Redis is asked again) — the controller is called.

* `Clears` — what Redis has to answer at the moments at which it is asked;
* `Admitted` — what a request has shown when the controller is called for it;
* `guarded` — **nobody else gets an operation executed**: in every run, each operation that
  the process is told has been admitted.

When nothing is revoked between the two questions, what Redis has to answer is what
`JwtStrategy.validate` asks for (`clears_iff_validate`).
-/

namespace AideepWebsocket.Http.Server

open Library
open Library.Redis (Answer Command Store execute_get_eq_text textOf)
open DocManager (NodeRow Reply)
open Gateway (BLACKLIST MASTER_TOKEN Role)
open Gateway.JwtStrategy (isMaster validate)
open NodeContent (NodeContentOperationBody)
open Redis (Format Tables)
open Redis.Process (issued)

variable {F : Format} {N : Framework} {verify : String → Except String Json} {lex : Lexical}
  {hash : NodeContentOperationBody → String} {s s' : State} {e : Event} {es : List Event}

/-! ### What Redis is asked -/

/-- What Redis holds in each of the moments at which it is asked: the token is not on the
blacklist, and if it is a master's it is the one that is stored. -/
def Clears (payload : Json) (token : String) : List Store → Prop
  | [first] =>
      (textOf first (BLACKLIST (some token))).any (· ≠ "") = false ∧ isMaster payload = false
  | [first, second] =>
      (textOf first (BLACKLIST (some token))).any (· ≠ "") = false ∧ isMaster payload = true ∧
        textOf second (MASTER_TOKEN (payload.get "user_id")) = some token
  | _ => False

/-- What has been found when a request is in a phase. -/
inductive Found (payload : Json) (token : String) : Phase → List Store → Prop
  | blacklist : Found payload token (.blacklist payload) []
  | masterToken (first : Store)
      (hfirst : (textOf first (BLACKLIST (some token))).any (· ≠ "") = false)
      (hmaster : isMaster payload = true) : Found payload token (.masterToken payload) [first]
  | admitted (asked : List Store) (h : Clears payload token asked) :
      Found payload token (.admitted payload) asked
  | executing (i : NodeContent.CallId) (asked : List Store) (h : Clears payload token asked) :
      Found payload token (.executing i) asked

private theorem issued_get {store : Store} {key : String} {reply : Reply} {answer : Answer}
    (h : (issued F store (.get key) reply).2 = some answer) :
    reply = .ok ∧ ∀ text, answer = .text text ↔ textOf store key = some text := by
  unfold issued at h
  dsimp only at h
  split at h
  · next hok =>
      obtain rfl := Option.some.inj h
      exact ⟨hok, fun text => execute_get_eq_text⟩
  · cases h

/-- The blacklist has let the token pass. -/
private theorem afterBlacklist_eq_ok {payload : Json} {answer : Option Answer} {phase : Phase}
    (h : afterBlacklist N payload answer = .ok phase) :
    (∃ a, answer = some a ∧ ∀ text, a = .text text → text = "") ∧
      phase = if isMaster payload then .masterToken payload else .admitted payload := by
  unfold afterBlacklist at h
  split at h
  · cases h
  · cases h
  · next text =>
      split at h
      · next hempty =>
          cases h
          exact ⟨⟨_, rfl, fun text' heq => by cases heq; exact hempty⟩, rfl⟩
      · cases h
  · next a _ hnot =>
      cases h
      exact ⟨⟨a, rfl, fun text heq => (hnot text heq).elim⟩, rfl⟩

/-- The token is the one that is stored. -/
private theorem afterMasterToken_eq_ok {payload : Json} {token : Option String}
    {answer : Option Answer} {phase : Phase}
    (h : afterMasterToken N token payload answer = .ok phase) :
    ∃ stored, answer = some (.text stored) ∧ some stored = token ∧ phase = .admitted payload := by
  unfold afterMasterToken at h
  split at h
  · cases h
  · cases h
  · next stored =>
      split at h
      · cases h
      · next hnot =>
          cases h
          exact ⟨stored, rfl, Decidable.not_not.mp (not_or.mp hnot).2, rfl⟩
  · cases h

/-- The guard goes on with what it has found. -/
private theorem found_of_afterCommand {p : Pending} {payload : Json} {token : String}
    {asked : List Store} {command : Command} {reply : Reply} {phase : Phase} {store : Store}
    (htoken : p.request.credentials.token = some token)
    (hfound : Found payload token p.phase asked) (hcommand : guardCommand F p = some command)
    (h : afterCommand N p (issued F store command reply).2 = .ok phase) :
    reply = .ok ∧ Found payload token phase (asked ++ [store]) := by
  obtain ⟨request, body, current⟩ := p
  cases hfound with
  | blacklist =>
      obtain rfl := Option.some.inj hcommand
      obtain ⟨⟨answer, hanswer, hempty⟩, rfl⟩ := afterBlacklist_eq_ok h
      obtain ⟨hok, htext⟩ := issued_get hanswer
      have hkey : F.key (.BLACKLIST (request.credentials.token.getD "null")) =
          BLACKLIST (some token) := by
        rw [show request.credentials.token = some token from htoken]
        rfl
      have hfirst : (textOf store (BLACKLIST (some token))).any (· ≠ "") = false := by
        rw [← hkey]
        cases htext' :
            textOf store (F.key (.BLACKLIST (request.credentials.token.getD "null"))) with
        | none => rfl
        | some text =>
            obtain rfl := hempty text ((htext text).mpr htext')
            rfl
      refine ⟨hok, ?_⟩
      cases hmaster : isMaster payload with
      | true => exact .masterToken store hfirst hmaster
      | false => exact .admitted _ ⟨hfirst, hmaster⟩
  | masterToken first hfirst hmaster =>
      obtain rfl := Option.some.inj hcommand
      obtain ⟨stored, hanswer, hstored, rfl⟩ := afterMasterToken_eq_ok h
      obtain ⟨hok, htext⟩ := issued_get hanswer
      obtain rfl : stored = token := Option.some.inj (hstored.trans htoken)
      exact ⟨hok, .admitted _ ⟨hfirst, hmaster, (htext stored).mp rfl⟩⟩
  | admitted asked hclears => cases hcommand
  | executing i asked hclears => cases hcommand

/-! ### What a request has shown -/

/-- The moments at which a request has gone on: it has arrived, and Redis has answered. -/
def moments (id : RequestId) (r : Request) (arrival : State) (asked : List State) :
    List (State × Event) :=
  (arrival, .request r) :: asked.map fun s => (s, .redisReply id .ok)

/-- What a pending request has shown in a run. -/
def Shown (F : Format) (verify : String → Except String Json) (run : List (State × Event))
    (id : RequestId) (p : Pending) : Prop :=
  ∃ arrival asked payload token, p.request.credentials.token = some token ∧
    verify token = .ok payload ∧ parseBody F.numeral p.request.body = .ok p.body ∧
    arrival.next = id ∧ Found payload token p.phase (asked.map fun s => s.server.store) ∧
    (moments id p.request arrival asked).Sublist run

/-- The operation has been requested by someone whose token and body have been accepted. -/
inductive Admitted (F : Format) (N : Framework) (verify : String → Except String Json)
    (run : List (State × Event)) (f : App.Event) : Prop
  | intro (id : RequestId) (r : Request) (arrival called : State) (asked : List State)
      (payload : Json) (token : String) (userId : UserId) (body : NodeContentOperationBody)
      (hf : f = .service (.execute userId r.workspaceId r.nodeId r.idempotencyKey body))
      (htoken : r.credentials.token = some token) (hverify : verify token = .ok payload)
      (huser : userOf F payload = some userId) (hbody : Accepted F N.length r.body body)
      (harrival : arrival.next = id)
      (hclears : Clears payload token (asked.map fun s => s.server.store))
      (hmoments : (moments id r arrival asked ++ [(called, Event.execute id)]).Sublist run)

variable {run : List (State × Event)} {x : State × Event} {id : RequestId} {p : Pending}
  {f : App.Event}

private theorem Shown.concat (h : Shown F verify run id p) : Shown F verify (run ++ [x]) id p := by
  obtain ⟨arrival, asked, payload, token, htoken, hverify, hbody, hid, hfound, hmoments⟩ := h
  exact ⟨arrival, asked, payload, token, htoken, hverify, hbody, hid, hfound,
    hmoments.trans (List.sublist_append_left run [x])⟩

private theorem Admitted.concat (h : Admitted F N verify run f) :
    Admitted F N verify (run ++ [x]) f := by
  obtain ⟨id, r, arrival, called, asked, payload, token, userId, body, hf, htoken, hverify, huser,
    hbody, harrival, hclears, hmoments⟩ := h
  exact ⟨id, r, arrival, called, asked, payload, token, userId, body, hf, htoken, hverify, huser,
    hbody, harrival, hclears, hmoments.trans (List.sublist_append_left run [x])⟩

/-- A request that arrives has shown a token. -/
private theorem shown_of_arrived {r : Request} {body payload : Json}
    (hbody : parseBody F.numeral r.body = .ok body)
    (hpayload : authenticate verify r.credentials = some payload) :
    Shown F verify (run ++ [(s, .request r)]) s.next ⟨r, body, .blacklist payload⟩ := by
  unfold authenticate at hpayload
  split at hpayload
  · cases hpayload
  · next token htoken =>
      split at hpayload
      · cases hpayload
      · cases hverify : verify token with
        | error message =>
            rw [hverify] at hpayload
            cases hpayload
        | ok payload' =>
            rw [hverify] at hpayload
            obtain rfl := Option.some.inj hpayload
            exact ⟨s, [], payload', token, htoken, hverify, hbody, rfl, .blacklist,
              List.sublist_append_right run _⟩

/-- A request whose guard goes on has shown more. -/
private theorem Shown.asked (h : Shown F verify run id p) {command : Command} {reply : Reply}
    {phase : Phase} (hcommand : guardCommand F p = some command)
    (hphase : afterCommand N p (issued F s.server.store command reply).2 = .ok phase) :
    Shown F verify (run ++ [(s, .redisReply id reply)]) id { p with phase := phase } := by
  obtain ⟨arrival, asked, payload, token, htoken, hverify, hbody, hid, hfound, hmoments⟩ := h
  obtain ⟨rfl, hfound'⟩ := found_of_afterCommand htoken hfound hcommand hphase
  refine ⟨arrival, asked ++ [s], payload, token, htoken, hverify, hbody, hid, ?_, ?_⟩
  · rw [List.map_append]
    exact hfound'
  · rw [moments, List.map_append, ← List.cons_append]
    exact hmoments.append (List.Sublist.refl _)

/-- What the controller calls has been admitted. -/
private theorem Shown.admitted (h : Shown F verify run id p) (hf : operation F N p = some (.ok f)) :
    Admitted F N verify (run ++ [(s, .execute id)]) f := by
  obtain ⟨arrival, asked, payload, token, htoken, hverify, hbody, hid, hfound, hmoments⟩ := h
  unfold operation at hf
  split at hf
  · next payload' hphase =>
      rw [hphase] at hfound
      obtain ⟨hclears, rfl⟩ : Clears payload token (asked.map fun s => s.server.store) ∧
          payload = payload' := by
        cases hfound with
        | admitted _ hclears => exact ⟨hclears, rfl⟩
      split at hf
      · next hviolations =>
          split at hf
          · next body userId hread huser =>
              split at hf
              · cases hf
              · cases hf
                exact ⟨id, p.request, arrival, s, asked, payload, token, userId, body, rfl, htoken,
                  hverify, huser, ⟨p.body, hbody, hviolations, hread⟩, hid, hclears,
                  hmoments.append (List.Sublist.refl _)⟩
          · cases hf
      · cases hf
  · cases hf

/-- While the controller awaits its call, what has been found stands. -/
private theorem Shown.executing (h : Shown F verify run id p)
    (hf : operation F N p = some (.ok f)) (i : NodeContent.CallId) :
    Shown F verify (run ++ [x]) id { p with phase := .executing i } := by
  obtain ⟨arrival, asked, payload, token, htoken, hverify, hbody, hid, hfound, hmoments⟩ := h
  refine ⟨arrival, asked, payload, token, htoken, hverify, hbody, hid, ?_,
    hmoments.trans (List.sublist_append_left run [x])⟩
  obtain ⟨request, body, current⟩ := p
  generalize asked.map (fun s => s.server.store) = stores at hfound ⊢
  cases hfound with
  | admitted _ hclears => exact .executing i _ hclears
  | executing j _ hclears => exact .executing i _ hclears
  | blacklist => cases hf
  | masterToken first hfirst hmaster => cases hf

variable (F N verify lex hash) in
/-- What a run has shown, of its pending requests and of the operations that were called. -/
structure History (init : State) (es : List Event) (s : State) : Prop where
  pending : ∀ id p, s.pending id = some p →
    Shown F verify (path (step F N verify lex hash) init es) id p
  told : ∀ f ∈ trace (step F N verify lex hash) (said F N) init es,
    Redis.Process.requested f = true →
      Admitted F N verify (path (step F N verify lex hash) init es) f

/-- What is said in the rest of the server is no operation. -/
private theorem requested_said {e : EventBus.Server.Event} (he : unrequested e = false)
    (hf : f ∈ EventBus.Server.said F e) : Redis.Process.requested f = false := by
  cases e with
  | message text =>
      obtain hevent := Option.mem_toList.mp hf
      cases hhandled : EventBus.handleMessage F text with
      | broadcast event =>
          rw [hhandled] at hevent
          cases hevent
          rfl
      | broadcastYjsUpdate nodeId update =>
          rw [hhandled] at hevent
          cases hevent
          rfl
      | applyNodeBodyPatch payload =>
          rw [hhandled] at hevent
          cases hevent
          rfl
      | _ =>
          rw [hhandled] at hevent
          cases hevent
  | process e =>
      obtain ⟨htold, hrequested⟩ := List.mem_filter.mp hf
      cases e with
      | app e' =>
          obtain ⟨hmem, -⟩ := List.mem_filter.mp htold
          obtain rfl := List.mem_singleton.mp hmem
          have hnot : Redis.Process.requested f = false := he
          rw [hnot] at hrequested
          cases hrequested
      | _ => cases htold

namespace History

variable {init : State}

theorem concat (hH : History F N verify lex hash init es s)
    (hes : exec (step F N verify lex hash) init es = some s)
    (h : step F N verify lex hash s e = some s') :
    History F N verify lex hash init (es ++ [e]) s' := by
  have hpath : path (step F N verify lex hash) init (es ++ [e]) =
      path (step F N verify lex hash) init es ++ [(s, e)] := by
    rw [path_append [e] hes, path_cons [] h]
    rfl
  have htrace : trace (step F N verify lex hash) (said F N) init (es ++ [e]) =
      trace (step F N verify lex hash) (said F N) init es ++ said F N s e := by
    rw [trace_append [e] hes, trace_singleton h]
  have hpending {id : RequestId} {p' : Option Pending} {server : Redis.Process.State}
      {n : RequestId}
      (hp' : ∀ p, p' = some p →
        Shown F verify (path (step F N verify lex hash) init es ++ [(s, e)]) id p) :
      ∀ id' p, (State.setPending ⟨server, s.pending, n⟩ id p').pending id' = some p →
        Shown F verify (path (step F N verify lex hash) init es ++ [(s, e)]) id' p := by
    intro id' p hp
    by_cases hid : id' = id
    · subst hid
      rw [State.setPending_self] at hp
      exact hp' p hp
    · rw [State.setPending_of_ne _ p' hid] at hp
      exact (hH.pending id' p hp).concat
  have htold (hsaid : ∀ f ∈ said F N s e, Redis.Process.requested f = true →
      Admitted F N verify (path (step F N verify lex hash) init es ++ [(s, e)]) f) :
      ∀ f ∈ trace (step F N verify lex hash) (said F N) init (es ++ [e]),
        Redis.Process.requested f = true →
          Admitted F N verify (path (step F N verify lex hash) init es ++ [(s, e)]) f := by
    intro f hf hrequested
    rw [htrace] at hf
    rcases List.mem_append.mp hf with hf | hf
    · exact (hH.told f hf hrequested).concat
    · exact hsaid f hf hrequested
  rw [step_eq_some] at h
  refine ⟨?_, ?_⟩ <;> rw [hpath]
  · cases handle_cases h with
    | rejected r exception he hs' hout =>
        subst he hs'
        exact hpending fun p hp => by cases hp
    | arrived r body payload he hexpressible hbody hpayload hs' hout =>
        subst he hs'
        refine hpending fun p hp => ?_
        cases hp
        exact shown_of_arrived hbody hpayload
    | refused id p exception he hp hs' hout =>
        subst hs'
        exact hpending fun p hp => by cases hp
    | responded id p i call result he hp hphase hcall hresult hs' hout =>
        subst hs'
        exact hpending fun p hp => by cases hp
    | guarded id reply p command phase he hp hcommand hphase hs' hout =>
        subst he hs'
        refine hpending fun p' hp' => ?_
        cases hp'
        exact (hH.pending id p hp).asked hcommand hphase
    | executed id p f server sent he hp hf hserver hs' hout =>
        subst he hs'
        refine hpending fun p' hp' => ?_
        cases hp'
        exact (hH.pending id p hp).executing hf _
    | moved f server sent he hf hserver hs' hout =>
        subst he hs'
        intro id p hp
        have hsome : (if ends f then fun _ => none else s.pending) id = some p := hp
        split at hsome
        · cases hsome
        · exact (hH.pending id p hsome).concat
  · refine htold fun f hf hrequested => ?_
    cases e with
    | execute id =>
        rw [said] at hf
        split at hf
        · next f' hoperation =>
            obtain rfl := List.mem_singleton.mp hf
            obtain ⟨p, hp, hf'⟩ := Option.bind_eq_some_iff.mp hoperation
            exact (hH.pending id p hp).admitted hf'
        · cases hf
    | server e =>
        have hunrequested : unrequested e = false := by
          cases hunrequested : unrequested e with
          | false => rfl
          | true =>
              rw [handle, if_pos hunrequested] at h
              cases h
        rw [requested_said hunrequested hf] at hrequested
        cases hrequested
    | _ => cases hf

end History

theorem history_of_exec {nodes : NodeId → Option NodeRow}
    {memberships : UserId → WorkspaceId → Option Role}
    (hes : exec (step F N verify lex hash) (.init nodes memberships) es = some s) :
    History F N verify lex hash (.init nodes memberships) es s :=
  history_invariant (I := History F N verify lex hash (.init nodes memberships))
    ⟨fun id p hp => (by cases hp), fun f hf => (by cases hf)⟩
    (fun es s e s' hes hH hstep => hH.concat hes hstep) hes

/-- **Nobody else gets an operation executed.**  Each run is one of the process over tables
that sends the same to the sockets, and whatever operation the process is told in it was
requested by someone whose token had been verified, was not revoked when Redis was asked,
and whose body has been accepted. -/
theorem guarded (F : Format) (N : Framework) (verify : String → Except String Json)
    (lex : Lexical) (hash : NodeContentOperationBody → String) (nodes : NodeId → Option NodeRow)
    (memberships : UserId → WorkspaceId → Option Role) {es : List Event} {s : State}
    (hes : exec (step F N verify lex hash) (.init nodes memberships) es = some s) :
    ∃ (fs : List App.Event) (T : Tables),
      exec (App.step lex (identified F verify) hash) (.init nodes memberships) fs =
        some (T.into s.server.app) ∧
      trace (App.step lex (identified F verify) hash)
          (Redis.Process.listedOutputs F lex (identified F verify) hash) (.init nodes memberships)
          fs =
        (trace (step F N verify lex hash) (outputs F N verify lex hash) (.init nodes memberships)
          es).filterMap Output.socket ∧
      ∀ f ∈ fs, Redis.Process.requested f = true →
        Admitted F N verify (path (step F N verify lex hash) (.init nodes memberships) es) f := by
  obtain ⟨fs, T, hfs, htrace, htold, -⟩ :=
    process_of_run F N verify lex hash nodes memberships hes
  refine ⟨fs, T, hfs, htrace, fun f hf hrequested => ?_⟩
  have hexternal : Redis.Process.external f = true := by
    rw [Redis.Process.external, hrequested, Bool.or_true]
  refine (history_of_exec hes).told f ?_ hrequested
  rw [← htold]
  exact List.mem_filter.mpr ⟨hf, hexternal⟩

private theorem of_clears_replicate {payload : Json} {token : String} {store : Store} {n : ℕ}
    (h : Clears payload token (List.replicate n store)) :
    (textOf store (BLACKLIST (some token))).any (· ≠ "") = false ∧
      (isMaster payload = true →
        textOf store (MASTER_TOKEN (payload.get "user_id")) = some token) := by
  rcases n with _ | _ | _ | n
  · cases h
  · exact ⟨h.1, fun hmaster => absurd hmaster (Bool.eq_false_iff.mp h.2)⟩
  · exact ⟨h.1, fun _ => h.2.2⟩
  · cases h

/-- When nothing changes between the two questions, the guard is `validate`. -/
theorem clears_iff_validate {payload : Json} {token : String} {r : Gateway.JwtStrategy.Request}
    (htoken : r.token = some token) (hne : token ≠ "") (store : Store) :
    (∃ n, Clears payload token (List.replicate n store)) ↔
      validate (textOf store) r payload = .ok payload := by
  rw [Gateway.validate_eq_ok_iff htoken hne]
  constructor
  · rintro ⟨n, hclears⟩
    obtain ⟨hfirst, hstored⟩ := of_clears_replicate hclears
    rintro (hlisted | ⟨hmaster, hother⟩)
    · exact absurd hlisted (Bool.eq_false_iff.mp hfirst)
    · exact hother (hstored hmaster)
  · intro hnot
    obtain ⟨hfirst, hother⟩ := not_or.mp hnot
    have hfirst : (textOf store (BLACKLIST (some token))).any (· ≠ "") = false :=
      Bool.eq_false_iff.mpr hfirst
    cases hmaster : isMaster payload with
    | false => exact ⟨1, hfirst, hmaster⟩
    | true => exact ⟨2, hfirst, hmaster, Decidable.not_not.mp fun h => hother ⟨hmaster, h⟩⟩

/-! ### A run -/

/-- A step of the gateway. -/
def gateway (e : Gateway.Event) : Event := .server (.process (.app (.gateway e)))

/-- User `9` opens node `1`, and requests an operation on it. -/
def requestedRun : List Event :=
  [gateway (.connect (some "token of 9")), gateway (.joinWorkspace 0 7 "" "" none),
    gateway (.membershipReply 0 true)] ++
  List.replicate 4 (.server (.process (.gatewayReply .ok))) ++
  [gateway (.yjsJoin 0 1), gateway (.membershipReply 1 true),
    .server (.process (.managerReply .ok)), gateway (.manager (.continueLoad 0)),
    gateway (.manager (.dbReply 0 true 0)), gateway (.manager (.continueLoad 0)),
    gateway (.resumeYjsJoin 2), .request appendRequest, .redisReply 0 .ok, .execute 0]

/-- The operation of user `9` has been admitted. -/
theorem requestedRun_guarded :
    ∃ (s : State) (fs : List App.Event) (T : Tables),
      exec (App.step .plain (identified Redis.plainFormat oneToken) fun _ => "")
          (.init NodeContent.Server.oneNode NodeContent.Server.editors) fs =
        some (T.into s.server.app) ∧
      trace (App.step .plain (identified Redis.plainFormat oneToken) fun _ => "")
          (Redis.Process.listedOutputs Redis.plainFormat .plain
            (identified Redis.plainFormat oneToken) fun _ => "")
          (.init NodeContent.Server.oneNode NodeContent.Server.editors) fs =
        (trace (step Redis.plainFormat plainFramework oneToken .plain fun _ => "")
          (outputs Redis.plainFormat plainFramework oneToken .plain fun _ => "")
          (.init NodeContent.Server.oneNode NodeContent.Server.editors) requestedRun).filterMap
            Output.socket ∧
      ∀ f ∈ fs, Redis.Process.requested f = true →
        Admitted Redis.plainFormat plainFramework oneToken
          (path (step Redis.plainFormat plainFramework oneToken .plain fun _ => "")
            (.init NodeContent.Server.oneNode NodeContent.Server.editors) requestedRun) f := by
  have hsome : (exec (step Redis.plainFormat plainFramework oneToken .plain fun _ => "")
      (.init NodeContent.Server.oneNode NodeContent.Server.editors) requestedRun).isSome = true := by
    decide +kernel
  obtain ⟨s, hs⟩ := Option.isSome_iff_exists.mp hsome
  exact ⟨s, guarded Redis.plainFormat plainFramework oneToken .plain (fun _ => "") _ _ hs⟩

end AideepWebsocket.Http.Server
