import AideepWebsocket.NodeContent.Idempotency

/-!
# The replies of one key agree

While its entry does not lapse, a key is written once: it is vacant, or claimed by
the one call that is at work, or it holds the response of a call that has got to its
end.  A call answers with its own response only after it has stored it, and with that
of another call only after it has read it.

`Backed` says what a call that is at work, or has answered, knows of the entry of its
key.  It is kept by the steps of the call itself, and by those of the others because
they write only where nothing is stored or where their own claim is
(`Backed.of_claim`).  `replies_agree` reads the agreement off it.
-/

namespace AideepWebsocket.NodeContent

open Library
open DocManager (NodeRow Reply)
open Gateway (Role)

variable {hash : NodeContentOperationBody → String} {s s' : State} {e : Event} {key : CacheKey}

/-! ### What is claimed -/

/-- The call `i` is an operation with the key and the body, and has answered. -/
def State.Replied (s : State) (key : CacheKey) (i : CallId) (body : NodeContentOperationBody)
    (response : NodeContentOperationResponse) : Prop :=
  ∃ userId workspaceId nodeId idempotencyKey,
    s.calls i = some ⟨.operation userId workspaceId nodeId idempotencyKey body,
      .returned (.ok (some response))⟩ ∧
    (Request.operation userId workspaceId nodeId idempotencyKey body).cacheKey = key

/-- **The successful replies of a key agree**, at most one of them is not a duplicate,
and a call with another body ends in an error. -/
structure RepliesAgree (s : State) (key : CacheKey) : Prop where
  agree : ∀ {i j body body' response response'}, s.Replied key i body response →
    s.Replied key j body' response' → body = body' ∧
      response.operationId = response'.operationId ∧
      response.previousVersion = response'.previousVersion ∧
      response.version = response'.version ∧ response.updatedAt = response'.updatedAt
  fresh : ∀ {i j body body' response response'}, s.Replied key i body response →
    s.Replied key j body' response' → response.duplicate = false → response'.duplicate = false →
      i = j
  other : ∀ {i j body response userId workspaceId nodeId idempotencyKey body' result},
    s.Replied key i body response →
    s.calls j = some ⟨.operation userId workspaceId nodeId idempotencyKey body',
      .returned result⟩ →
    (Request.operation userId workspaceId nodeId idempotencyKey body').cacheKey = key →
    body' ≠ body → ∃ error, result = .error error

/-! ### The invariant -/

/-- A call that is at work has its claim in the cache, and one that has answered has
answered with what is stored there. -/
def Call.Backed (hash : NodeContentOperationBody → String) (i : CallId) (call : Call)
    (entry : Option Entry) : Prop :=
  match call.phase, call.request with
  | .appendMarkdown _, request | .release _, request =>
      entry = some ⟨request.claimValue hash, i⟩
  | .store response, request =>
      entry = some ⟨request.claimValue hash, i⟩ ∧ response.duplicate = false ∧
        ∃ userId workspaceId nodeId idempotencyKey body,
          request = .operation userId workspaceId nodeId idempotencyKey body
  | .returned (.ok (some response)), .operation _ _ _ _ body =>
      ∃ stored owner, entry = some ⟨.response (hash body) stored, owner⟩ ∧
        (response = stored ∧ owner = i ∨ response = { stored with duplicate := true })
  | .returned (.ok (some _)), .patch .. => False
  | .returned (.ok none), .operation .. => False
  | _, _ => True

/-- The calls of a key are backed by its entry, and what is stored there is no
duplicate. -/
structure KeyInv (hash : NodeContentOperationBody → String) (key : CacheKey) (s : State) :
    Prop where
  backed : ∀ {i call}, s.calls i = some call → call.request.cacheKey = key →
    call.Backed hash i (s.cache key)
  stored : ∀ {requestHash response owner},
    s.cache key = some ⟨.response requestHash response, owner⟩ → response.duplicate = false

theorem keyInv_init (nodes : NodeId → Option NodeRow)
    (memberships : UserId → WorkspaceId → Option Role) :
    KeyInv hash key (State.init nodes memberships) where
  backed h := by cases h
  stored h := by cases h

theorem claimValue_ne_response (request : Request) (requestHash : String)
    (response : NodeContentOperationResponse) :
    request.claimValue hash ≠ .response requestHash response := by
  cases request <;> simp [Request.claimValue]

/-- A call does not depend on an entry that is not there, nor on the claim of another
call. -/
theorem Call.Backed.of_claim {j : CallId} {call : Call} {entry entry' : Option Entry}
    (h : call.Backed hash j entry)
    (hfree : entry = none ∨ ∃ request i, i ≠ j ∧
      entry = some ⟨Request.claimValue hash request, i⟩) : call.Backed hash j entry' := by
  obtain ⟨request, phase⟩ := call
  have hclaim : entry ≠ some ⟨request.claimValue hash, j⟩ := by
    rintro rfl
    rcases hfree with hnone | ⟨_, i, hij, heq⟩
    · cases hnone
    · exact hij (congrArg Entry.owner (Option.some.inj heq)).symm
  have hresponse : ∀ {requestHash response owner},
      entry ≠ some ⟨.response requestHash response, owner⟩ := by
    rintro requestHash response owner rfl
    rcases hfree with hnone | ⟨other, i, -, heq⟩
    · cases hnone
    · exact claimValue_ne_response other requestHash response
        (congrArg Entry.value (Option.some.inj heq)).symm
  cases phase with
  | appendMarkdown _ => exact absurd h hclaim
  | release _ => exact absurd h hclaim
  | store _ => exact absurd h.1 hclaim
  | returned result =>
      rcases result with error | _ | response
      · trivial
      · cases request <;> exact h
      · cases request with
        | operation _ _ _ _ body =>
            obtain ⟨stored, owner, hentry, -⟩ := h
            exact absurd hentry hresponse
        | patch _ _ _ _ _ => exact h
  | _ => trivial

namespace KeyInv

/-- A call goes on; if it writes, then where nothing is stored or over its claim. -/
private theorem of_update (hK : KeyInv hash key s) {i : CallId} {call : Call} {phase : Phase}
    (hcalls : s'.calls = Function.update s.calls i (some { call with phase := phase }))
    (hcache : s'.cache key = s.cache key ∨ s.cache key = none ∨
      s.cache key = some ⟨call.request.claimValue hash, i⟩)
    (hbacked : call.request.cacheKey = key →
      ({ call with phase := phase } : Call).Backed hash i (s'.cache key))
    (hstored : ∀ {requestHash response owner},
      s'.cache key = some ⟨.response requestHash response, owner⟩ → response.duplicate = false) :
    KeyInv hash key s' := by
  refine ⟨fun {j x} hx hkey => ?_, hstored⟩
  rw [hcalls] at hx
  by_cases hj : j = i
  · subst hj
    rw [Function.update_self] at hx
    obtain rfl := Option.some.inj hx
    exact hbacked hkey
  · rw [Function.update_of_ne hj] at hx
    have hold := hK.backed hx hkey
    rcases hcache with hsame | hnone | hclaim
    · rw [hsame]
      exact hold
    · exact hold.of_claim (Or.inl hnone)
    · exact hold.of_claim (Or.inr ⟨_, i, fun heq => hj heq.symm, hclaim⟩)

/-- A call goes on to `phase`, and writes nothing. -/
private theorem of_setPhase (hK : KeyInv hash key s) {i : CallId} {call : Call} {phase : Phase}
    (hbacked : call.request.cacheKey = key →
      ({ call with phase := phase } : Call).Backed hash i (s.cache key)) :
    KeyInv hash key (s.setPhase i call phase) :=
  hK.of_update rfl (Or.inl rfl) hbacked hK.stored

private theorem of_same (hK : KeyInv hash key s) (hcalls : s'.calls = s.calls)
    (hcache : s'.cache key = s.cache key) : KeyInv hash key s' := by
  refine ⟨fun hx hkey => ?_, fun hentry => ?_⟩
  · rw [hcalls] at hx
    rw [hcache]
    exact hK.backed hx hkey
  · rw [hcache] at hentry
    exact hK.stored hentry

private theorem of_start (hK : KeyInv hash key s) {request : Request} {phase : Phase}
    (hphase : phase = .checkWorkspace ∨ phase = .selectNodeById) :
    KeyInv hash key (s.start request phase) := by
  refine ⟨fun {j x} hx hkey => ?_, hK.stored⟩
  by_cases hj : j = s.nextCall
  · subst hj
    have hnew : (s.start request phase).calls s.nextCall = some ⟨request, phase⟩ :=
      Function.update_self ..
    rw [hnew] at hx
    obtain rfl := Option.some.inj hx
    rcases hphase with rfl | rfl <;> trivial
  · have hold : (s.start request phase).calls j = s.calls j := Function.update_of_ne hj ..
    rw [hold] at hx
    exact hK.backed hx hkey

/-- A call writes to its key, where nothing is stored or over its claim. -/
private theorem of_write (hK : KeyInv hash key s) {i : CallId} {call : Call} {phase : Phase}
    {entry : Option Entry} (hown : call.request.cacheKey = key → s.cache key = none ∨
      s.cache key = some ⟨call.request.claimValue hash, i⟩)
    (hbacked : call.request.cacheKey = key →
      ({ call with phase := phase } : Call).Backed hash i entry)
    (hstored : call.request.cacheKey = key → ∀ {requestHash response owner},
      entry = some ⟨.response requestHash response, owner⟩ → response.duplicate = false) :
    KeyInv hash key ((s.setCache call.request.cacheKey entry).setPhase i call phase) := by
  by_cases hkey : call.request.cacheKey = key
  · subst hkey
    have hentry : ((s.setCache call.request.cacheKey entry).setPhase i call phase).cache
        call.request.cacheKey = entry := Function.update_self ..
    refine hK.of_update rfl (Or.inr (hown rfl)) (fun _ => ?_) fun hresponse => ?_
    · rw [hentry]
      exact hbacked rfl
    · rw [hentry] at hresponse
      exact hstored rfl hresponse
  · have hsame : ((s.setCache call.request.cacheKey entry).setPhase i call phase).cache key =
        s.cache key := Function.update_of_ne (Ne.symm hkey) ..
    refine hK.of_update rfl (Or.inl hsame) (fun heq => absurd heq hkey) fun hresponse => ?_
    rw [hsame] at hresponse
    exact hK.stored hresponse

private theorem backed_withNode (request : Request) (existing : Option NodeRow) (i : CallId)
    {entry : Option Entry} :
    (⟨request, request.withNode existing⟩ : Call).Backed hash i entry := by
  cases request with
  | operation _ _ _ _ _ =>
      cases existing with
      | none => trivial
      | some row =>
          unfold Request.withNode
          dsimp only
          split <;> trivial
  | patch _ _ _ _ _ =>
      cases existing with
      | none => trivial
      | some row =>
          unfold Request.withNode
          dsimp only
          split <;> trivial

/-- What `GET` has found is what the call answers with. -/
private theorem backed_withCached (request : Request) (version : ℕ) (i : CallId)
    {entry : Option Entry} : (⟨request, request.withCached hash version
      (entry.map Entry.value)⟩ : Call).Backed hash i entry := by
  cases request with
  | patch _ _ _ _ _ => trivial
  | operation userId workspaceId nodeId idempotencyKey body =>
      cases entry with
      | none =>
          unfold Request.withCached
          dsimp only [Option.map_none]
          split <;> trivial
      | some entry =>
          obtain ⟨value, owner⟩ := entry
          unfold Request.withCached
          dsimp only [Option.map_some]
          split
          · trivial
          · next hhash =>
              cases value with
              | response requestHash stored =>
                  have heq : requestHash = hash body := by
                    simpa [CacheValue.requestHash] using hhash
                  subst heq
                  exact ⟨stored, owner, rfl, Or.inr rfl⟩
              | _ => trivial

private theorem of_redisReply (hK : KeyInv hash key s) {i : CallId} {reply : Reply}
    (h : RedisStep hash s i reply s') : KeyInv hash key s' := by
  cases h with
  | got call version hcall hphase hs' =>
      subst hs'
      refine hK.of_setPhase fun hkey => ?_
      split
      · rw [hkey]
        exact backed_withCached call.request version i
      · trivial
  | claimed call version phase hcall hphase hvacant _ hphase' hs' =>
      subst hs'
      refine hK.of_write (fun hkey => Or.inl (hkey ▸ hvacant)) (fun _ => ?_)
        fun _ requestHash response owner hentry => ?_
      · rcases hphase' with rfl | rfl
        · rfl
        · trivial
      · exact absurd (congrArg Entry.value (Option.some.inj hentry)) (claimValue_ne_response _ _ _)
  | unclaimed call version phase hcall hphase hphase' hs' =>
      subst hs'
      refine hK.of_setPhase fun _ => ?_
      obtain ⟨request, _⟩ := call
      rcases hphase' with rfl | rfl
      · cases request <;> trivial
      · trivial
  | released call error phase hcall hphase hphase' hs' =>
      obtain ⟨request, _⟩ := call
      subst hphase
      have hbacked : ∀ entry, (⟨request, phase⟩ : Call).Backed hash i entry := by
        intro entry
        rcases hphase' with rfl | rfl
        · cases request <;> trivial
        · trivial
      split at hs' <;> subst hs'
      · refine hK.of_write (fun hkey => ?_) (fun _ => hbacked _)
          fun _ requestHash response owner hentry => ?_
        · exact Or.inr (hK.backed hcall hkey)
        · cases hentry
      · exact hK.of_setPhase fun _ => hbacked _
  | stored call response hcall hphase _ hs' =>
      subst hs'
      obtain ⟨request, _⟩ := call
      subst hphase
      -- only an operation has a response to store
      have hwrites : request.cacheKey = key → _ := fun hkey => hK.backed hcall hkey
      refine hK.of_write (fun hkey => Or.inr (hwrites hkey).1) (fun hkey => ?_)
        fun hkey requestHash response' owner hentry => ?_
      · obtain ⟨-, -, userId, workspaceId, nodeId, idempotencyKey, body, rfl⟩ := hwrites hkey
        split
        · exact ⟨response, i, rfl, Or.inl ⟨rfl, rfl⟩⟩
        · trivial
      · obtain ⟨-, hfresh, userId, workspaceId, nodeId, idempotencyKey, body, rfl⟩ := hwrites hkey
        cases hentry
        exact hfresh
  | notStored call response hcall hphase hs' =>
      subst hs'
      exact hK.of_setPhase fun _ => trivial

private theorem of_appendReply (hK : KeyInv hash key s) {i : CallId} {result : Appended}
    (h : AppendStep s i result s') : KeyInv hash key s' := by
  -- the key of a call that awaits its append holds the claim of the call
  have hclaim : ∀ {call version}, s.calls i = some call →
      call.phase = .appendMarkdown version → call.request.cacheKey = key →
        s.cache key = some ⟨call.request.claimValue hash, i⟩ := by
    rintro ⟨request, phase⟩ version hcall rfl hkey
    exact hK.backed hcall hkey
  cases h with
  | rejected call version hcall hphase => exact hK.of_setPhase (hclaim hcall hphase)
  | announced call _ update version _ operationId hcall hphase =>
      have hclaim := hclaim hcall hphase
      refine hK.of_update rfl (Or.inl rfl) (fun hkey => ?_) hK.stored
      obtain ⟨request, phase⟩ := call
      cases request with
      | operation userId workspaceId nodeId idempotencyKey body =>
          exact ⟨hclaim hkey, rfl, userId, workspaceId, nodeId, idempotencyKey, body, rfl⟩
      | patch _ _ _ _ _ => trivial
  | unannounced call _ update version _ operationId hcall hphase =>
      have hclaim := hclaim hcall hphase
      refine hK.of_update rfl (Or.inl rfl) (fun hkey => ?_) hK.stored
      obtain ⟨request, phase⟩ := call
      cases request with
      | operation _ _ _ _ _ => trivial
      | patch _ _ _ _ _ => exact hclaim hkey

/-- **Every step keeps the invariant**, short of one that lets the entry of the key
lapse. -/
theorem step (hK : KeyInv hash key s) (h : NodeContent.step hash s e = some s')
    (hclaim : e ≠ .claimExpire key) (hresponse : e ≠ .responseExpire key) :
    KeyInv hash key s' := by
  cases step_cases h with
  | refused => exact hK
  | execute => exact hK.of_start (Or.inl rfl)
  | ignored => exact hK
  | patch => exact hK.of_start (Or.inr rfl)
  | membershipReply i ok call hcall hphase =>
      refine hK.of_setPhase fun _ => ?_
      split
      · unfold checkEditPermission
        split
        · trivial
        · split <;> trivial
      · trivial
  | nodeReply i ok call hcall hphase =>
      refine hK.of_setPhase fun _ => ?_
      split
      · exact backed_withNode call.request _ i
      · trivial
  | redisReply i reply s' hstep => exact hK.of_redisReply hstep
  | appendReply i result s' hstep => exact hK.of_appendReply hstep
  | claimExpire key' =>
      have hkey : key ≠ key' := fun heq => hclaim (by rw [heq])
      exact hK.of_same rfl (Function.update_of_ne hkey ..)
  | responseExpire key' =>
      have hkey : key ≠ key' := fun heq => hresponse (by rw [heq])
      exact hK.of_same rfl (Function.update_of_ne hkey ..)
  | writeNode => exact hK.of_same rfl rfl
  | setMembership => exact hK.of_same rfl rfl

/-- What a call has answered with is stored, as it is or not yet as a duplicate. -/
private theorem stored_of_replied (hK : KeyInv hash key s) {i : CallId}
    {body : NodeContentOperationBody} {response : NodeContentOperationResponse}
    (h : s.Replied key i body response) :
    ∃ stored owner, s.cache key = some ⟨.response (hash body) stored, owner⟩ ∧
      (response = stored ∧ owner = i ∨ response = { stored with duplicate := true }) := by
  obtain ⟨userId, workspaceId, nodeId, idempotencyKey, hcall, hkey⟩ := h
  exact hK.backed hcall hkey

theorem repliesAgree (hK : KeyInv hash key s) (hinj : Function.Injective hash) :
    RepliesAgree s key where
  agree {i j body body' response response'} hi hj := by
    obtain ⟨stored, owner, hentry, hresponse⟩ := hK.stored_of_replied hi
    obtain ⟨stored', owner', hentry', hresponse'⟩ := hK.stored_of_replied hj
    rw [hentry] at hentry'
    obtain ⟨⟨hbody, rfl⟩, rfl⟩ : (hash body = hash body' ∧ stored = stored') ∧ owner = owner' := by
      simpa using hentry'
    refine ⟨hinj hbody, ?_⟩
    rcases hresponse with ⟨rfl, -⟩ | rfl <;> rcases hresponse' with ⟨rfl, -⟩ | rfl <;> simp
  fresh {i j body body' response response'} hi hj hfresh hfresh' := by
    obtain ⟨stored, owner, hentry, hresponse⟩ := hK.stored_of_replied hi
    obtain ⟨stored', owner', hentry', hresponse'⟩ := hK.stored_of_replied hj
    rw [hentry] at hentry'
    have howner : owner = owner' := congrArg Entry.owner (Option.some.inj hentry')
    -- a response that has been read is a duplicate
    rcases hresponse with ⟨-, rfl⟩ | rfl
    · rcases hresponse' with ⟨-, rfl⟩ | rfl
      · exact howner
      · cases hfresh'
    · cases hfresh
  other {i j body response userId workspaceId nodeId idempotencyKey body' result} hi hcall hkey
      hne := by
    have hbacked := hK.backed hcall hkey
    rcases result with error | _ | response'
    · exact ⟨error, rfl⟩
    · exact hbacked.elim
    · obtain ⟨stored, owner, hentry, -⟩ := hK.stored_of_replied hi
      obtain ⟨stored', owner', hentry', -⟩ := hbacked
      rw [hentry] at hentry'
      have hbody : hash body = hash body' := by
        simpa [CacheValue.requestHash] using
          congrArg (fun en : Entry => en.value.requestHash) (Option.some.inj hentry')
      exact absurd (hinj hbody).symm hne

end KeyInv

/-! ### Runs -/

/-- **The replies of a key agree**, in every run in which its entry does not lapse. -/
theorem replies_agree {hash : NodeContentOperationBody → String} (hinj : Function.Injective hash)
    (nodes : NodeId → Option NodeRow) (memberships : UserId → WorkspaceId → Option Role)
    (key : CacheKey) {es : List Event} {s : State}
    (hexpiry : .claimExpire key ∉ es ∧ .responseExpire key ∉ es)
    (hes : exec (step hash) (State.init nodes memberships) es = some s) : RepliesAgree s key := by
  suffices hK : KeyInv hash key s from hK.repliesAgree hinj
  have hinit : KeyInv hash key (State.init nodes memberships) := keyInv_init nodes memberships
  generalize State.init nodes memberships = s₀ at hes hinit
  induction es generalizing s₀ with
  | nil =>
      cases hes
      exact hinit
  | cons e es ih =>
      rw [exec_cons, Option.bind_eq_some_iff] at hes
      obtain ⟨s₁, hstep, hrest⟩ := hes
      rw [List.mem_cons, List.mem_cons, not_or, not_or] at hexpiry
      obtain ⟨⟨hclaim, hclaims⟩, hresponse, hresponses⟩ := hexpiry
      exact ih ⟨hclaims, hresponses⟩ s₁ hrest
        (hinit.step hstep (Ne.symm hclaim) (Ne.symm hresponse))

/-- A number in unary, and a mark. -/
private def unary (n : ℕ) : List Char := List.replicate n '0' ++ ['1']

private theorem unary_append_inj {n m : ℕ} {l l' : List Char} (h : unary n ++ l = unary m ++ l') :
    n = m ∧ l = l' := by
  induction n generalizing m with
  | zero =>
      cases m with
      | zero => exact ⟨rfl, by simpa [unary] using h⟩
      | succ m => simp [unary, List.replicate_succ] at h
  | succ n ih =>
      cases m with
      | zero => simp [unary, List.replicate_succ] at h
      | succ m =>
          have htail : unary n ++ l = unary m ++ l' := by
            simpa [unary, List.replicate_succ] using h
          obtain ⟨rfl, hl⟩ := ih htail
          exact ⟨rfl, hl⟩

/-- A text, after its length. -/
private def text (s : String) : List Char := unary s.toList.length ++ s.toList

private theorem text_append_inj {s t : String} {l l' : List Char}
    (h : text s ++ l = text t ++ l') : s = t ∧ l = l' := by
  rw [text, text, List.append_assoc, List.append_assoc] at h
  obtain ⟨hlength, hrest⟩ := unary_append_inj h
  obtain ⟨hs, hl⟩ := List.append_inj hrest hlength
  exact ⟨String.toList_inj.mp hs, hl⟩

private def optionalText : Option String → List Char
  | none => unary 0
  | some s => unary 1 ++ text s

private theorem optionalText_append_inj {s t : Option String} {l l' : List Char}
    (h : optionalText s ++ l = optionalText t ++ l') : s = t ∧ l = l' := by
  cases s with
  | none =>
      cases t with
      | none => exact ⟨rfl, (unary_append_inj h).2⟩
      | some t =>
          rw [optionalText, optionalText, List.append_assoc] at h
          cases (unary_append_inj h).1
  | some s =>
      cases t with
      | none =>
          rw [optionalText, optionalText, List.append_assoc] at h
          cases (unary_append_inj h).1
      | some t =>
          rw [optionalText, optionalText, List.append_assoc, List.append_assoc] at h
          obtain ⟨rfl, hl⟩ := text_append_inj (unary_append_inj h).2
          exact ⟨rfl, hl⟩

/-- A hash without collisions: the body itself, written out. -/
def serialised (body : NodeContentOperationBody) : String :=
  String.ofList (text body.markdown ++ (unary (body.expectedVersion.elim 0 Nat.succ) ++
    (text body.source.actorId ++ (optionalText body.source.meetingId ++
      optionalText body.source.chunkId))))

theorem serialised_injective : Function.Injective serialised := by
  rintro ⟨operation, markdown, expectedVersion, actorType, actorId, meetingId, chunkId⟩
    ⟨operation', markdown', expectedVersion', actorType', actorId', meetingId', chunkId'⟩ h
  cases operation
  cases operation'
  cases actorType
  cases actorType'
  obtain ⟨rfl, hrest⟩ := text_append_inj (String.ofList_injective h)
  obtain ⟨hversion, hrest⟩ := unary_append_inj hrest
  obtain ⟨rfl, hrest⟩ := text_append_inj hrest
  obtain ⟨rfl, hrest⟩ := optionalText_append_inj hrest
  obtain ⟨rfl, -⟩ := optionalText_append_inj
    (show optionalText chunkId ++ [] = optionalText chunkId' ++ [] by rw [hrest])
  cases expectedVersion <;> cases expectedVersion' <;> simp at hversion
  · rfl
  · rw [hversion]

/-- Two calls with one key, one after the other: the second one answers with what the
first has stored. -/
theorem sentTwice_agree :
    (exec (step serialised) (State.init markdownNode editor) sentTwice).any (fun s =>
      (s.calls 0).any (fun call => match call.phase with
        | .returned (.ok (some response)) => response.duplicate = false
        | _ => false) &&
      (s.calls 1).any (fun call => match call.phase with
        | .returned (.ok (some response)) => response.duplicate = true
        | _ => false)) = true ∧
      ∀ s ∈ exec (step serialised) (State.init markdownNode editor) sentTwice,
        RepliesAgree s ⟨7, 1, 9, "chunk-key-001"⟩ :=
  ⟨by decide +kernel, fun _ hes => replies_agree serialised_injective markdownNode editor _
    (by decide +kernel) hes⟩

end AideepWebsocket.NodeContent
