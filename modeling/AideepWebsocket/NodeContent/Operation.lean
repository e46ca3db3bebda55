import AideepWebsocket.Gateway.State
import AideepWebsocket.Library.Javascript
import AideepWebsocket.Library.Run

/-!
# NodeContentService

`executeContentOperation` appends markdown to a node on behalf of an agent, and
`applyNodeBodyPatch` does so for a command of the API server.  Both protect
themselves against being run twice with a key in Redis: it is claimed with
`SET NX`, released with `DEL` if `appendMarkdown` rejects, and the operation at
last overwrites it with its response.

The first half of this module is the code of the two methods, cut at their
awaits: each definition says where the call goes on from what it has awaited.
The second half lets any number of calls run against one Redis.  A command of
Redis is atomic; that it is executed and that the call resumes are one step.  A
call that is never resumed is one whose process has died.

`appendMarkdown` is atomic here: it applies the markdown once and resolves, or
changes nothing and rejects.

Two fields of the state record what has happened and are never read: `applied`,
the calls whose markdown has been applied, and the `owner` of an entry of the
cache, the call that wrote it.  The log is left out.
-/

namespace AideepWebsocket.NodeContent

open DocManager (NodeRow Reply)
open Gateway (Role)
open Library (blank utf16Length)

abbrev CallId := ℕ

/-- `enum NodeContentOperation`. -/
inductive NodeContentOperation
  | APPEND_MARKDOWN
  deriving DecidableEq

/-- The only value that `actorType` may have. -/
inductive ActorType
  | AGENT
  deriving DecidableEq

structure NodeContentOperationSource where
  actorType : ActorType
  actorId : String
  meetingId : Option String
  chunkId : Option String
  deriving DecidableEq

structure NodeContentOperationBody where
  operation : NodeContentOperation
  markdown : String
  expectedVersion : Option ℕ
  source : NodeContentOperationSource
  deriving DecidableEq

structure NodeContentOperationResponse where
  operationId : ℕ
  nodeId : NodeId
  operation : NodeContentOperation
  previousVersion : ℕ
  version : ℕ
  updatedAt : ℕ
  duplicate : Bool
  deriving DecidableEq

/-- `interface NodeBodyPatchPayload`; the two fields that are tested may be
missing. -/
structure NodeBodyPatchPayload where
  workspaceId : WorkspaceId
  nodeId : NodeId
  markdown : Option String
  actorId : UserId
  commandEventId : Option String
  deriving DecidableEq

/-- What an exception carries to the client. -/
inductive ErrorBody
  | code (code : String)
  | message (text : String)
  | versionConflict (currentVersion : ℕ)
  deriving DecidableEq

/-- What a call may throw: an exception of its own, with its HTTP status, or what
it has awaited. -/
inductive OperationError
  | http (status : ℕ) (body : ErrorBody)
  | database
  | redis
  | append
  | broadcast
  deriving DecidableEq

/-- `REDIS_KEYS.NODE_CONTENT_OPERATION`. -/
structure CacheKey where
  workspaceId : WorkspaceId
  nodeId : NodeId
  actorId : UserId
  key : String
  deriving DecidableEq

/-- The JSON that is stored under a key. -/
inductive CacheValue
  | inProgress (requestHash : String)
  | response (requestHash : String) (response : NodeContentOperationResponse)
  | applied
  deriving DecidableEq

/-- `cached.requestHash`. -/
def CacheValue.requestHash : CacheValue → Option String
  | .inProgress requestHash => some requestHash
  | .response requestHash _ => some requestHash
  | .applied => none

/-- A call of one of the two methods, past its first checks. -/
inductive Request
  | operation (userId : UserId) (workspaceId : WorkspaceId) (nodeId : NodeId)
      (idempotencyKey : String) (body : NodeContentOperationBody)
  | patch (workspaceId : WorkspaceId) (nodeId : NodeId) (markdown : String) (actorId : UserId)
      (commandEventId : String)
  deriving DecidableEq

def Request.cacheKey : Request → CacheKey
  | .operation userId workspaceId nodeId idempotencyKey _ =>
      ⟨workspaceId, nodeId, userId, idempotencyKey⟩
  | .patch workspaceId nodeId _ actorId commandEventId =>
      ⟨workspaceId, nodeId, actorId, commandEventId⟩

/-- Where a call is suspended: it awaits the membership, the row of the node, one
of the four commands of Redis, or `appendMarkdown`; or it has ended. -/
inductive Phase
  | checkWorkspace
  | selectNodeById
  | get (version : ℕ)
  | claim (version : ℕ)
  | appendMarkdown (version : ℕ)
  | release (error : OperationError)
  | store (response : NodeContentOperationResponse)
  | returned (result : Except OperationError (Option NodeContentOperationResponse))

/-! ### The code between the awaits -/

/-- The start of `executeContentOperation`. -/
def executeContentOperation (userId : UserId) (workspaceId : WorkspaceId) (nodeId : NodeId)
    (idempotencyKey : Option String) (body : NodeContentOperationBody) :
    Except OperationError Request :=
  match idempotencyKey with
  | none => .error (.http 400 (.code "INVALID_IDEMPOTENCY_KEY"))
  | some key =>
      if utf16Length key < 8 ∨ utf16Length key > 128 then
        .error (.http 400 (.code "INVALID_IDEMPOTENCY_KEY"))
      else if blank body.markdown then .error (.http 400 (.code "EMPTY_MARKDOWN"))
      else .ok (.operation userId workspaceId nodeId key body)

/-- The start of `applyNodeBodyPatch`; `none` if it skips the patch. -/
def applyNodeBodyPatch (payload : NodeBodyPatchPayload) : Option Request :=
  match payload.markdown, payload.commandEventId with
  | some markdown, some commandEventId =>
      if blank markdown ∨ commandEventId = "" then none
      else some (.patch payload.workspaceId payload.nodeId markdown payload.actorId commandEventId)
  | _, _ => none

/-- The end of `checkEditPermission`. -/
def checkEditPermission : Option Role → Phase
  | none => .returned (.error (.http 404 (.message "해당 유저의 워크스페이스가 존재하지 않습니다.")))
  | some role =>
      if role ≠ .OWNER ∧ role ≠ .EDITOR then
        .returned (.error (.http 401 (.message "노드를 수정할 권한이 없습니다.")))
      else .selectNodeById

/-- `selectNodeById`. -/
def selectNodeById (nodes : NodeId → Option NodeRow) (workspaceId : WorkspaceId)
    (nodeId : NodeId) : Option NodeRow :=
  (nodes nodeId).filter fun row => row.workspaceId = workspaceId ∧ row.deletedAt = none

/-- `content.dataType === 'MARKDOWN'`. -/
def editable (row : NodeRow) : Bool :=
  row.content.bind DocManager.NodeContent.dataType = some "MARKDOWN"

namespace Request

/-- The call goes on with the row of the node. -/
def withNode (request : Request) (existing : Option NodeRow) : Phase :=
  match request, existing with
  | .operation .., none => .returned (.error (.http 404 (.code "NODE_NOT_FOUND")))
  | .operation .., some row =>
      if editable row then .get row.version
      else .returned (.error (.http 422 (.code "NODE_TYPE_NOT_EDITABLE")))
  | .patch .., none => .returned (.ok none)
  | .patch .., some row => if editable row then .claim row.version else .returned (.ok none)

variable (hash : NodeContentOperationBody → String)

/-- `executeContentOperation` goes on with what is cached under its key. -/
def withCached (request : Request) (version : ℕ) (cached : Option CacheValue) : Phase :=
  match request with
  | .patch .. => .claim version
  | .operation _ _ _ _ body =>
      match cached with
      | some value =>
          if value.requestHash ≠ some (hash body) then
            .returned (.error (.http 409 (.code "IDEMPOTENCY_KEY_REUSED")))
          else
            match value with
            | .response _ response => .returned (.ok (some { response with duplicate := true }))
            | _ => .returned (.error (.http 409 (.code "OPERATION_IN_PROGRESS")))
      | none =>
          if body.expectedVersion.any (· ≠ version) then
            .returned (.error (.http 409 (.versionConflict version)))
          else .claim version

/-- The value with which the call claims its key: for 60 s, or for 24 h. -/
def claimValue : Request → CacheValue
  | .operation _ _ _ _ body => .inProgress (hash body)
  | .patch .. => .applied

/-- The claim was not granted. -/
def unclaimed : Request → Phase
  | .operation .. => .returned (.error (.http 409 (.code "OPERATION_IN_PROGRESS")))
  | .patch .. => .returned (.ok none)

/-- `appendMarkdown` has resolved, and the update has been broadcast. -/
def appended (request : Request) (previousVersion operationId version updatedAt : ℕ) : Phase :=
  match request with
  | .operation _ _ nodeId _ body =>
      .store ⟨operationId, nodeId, body.operation, previousVersion, version, updatedAt, false⟩
  | .patch .. => .returned (.ok none)

/-- `broadcastYjsUpdate` has thrown: for a patch this is inside its `try`. -/
def unannounced : Request → Phase
  | .operation .. => .returned (.error .broadcast)
  | .patch .. => .release .broadcast

/-- The claim has been released: an operation throws the error again. -/
def released (request : Request) (error : OperationError) : Phase :=
  match request with
  | .operation .. => .returned (.error error)
  | .patch .. => .returned (.ok none)

/-- The value that replaces the claim. -/
def responseValue (request : Request) (response : NodeContentOperationResponse) : CacheValue :=
  match request with
  | .operation _ _ _ _ body => .response (hash body) response
  | .patch .. => .applied

def nodeId : Request → NodeId
  | .operation _ _ nodeId _ _ => nodeId
  | .patch _ nodeId _ _ _ => nodeId

def workspaceId : Request → WorkspaceId
  | .operation _ workspaceId _ _ _ => workspaceId
  | .patch workspaceId _ _ _ _ => workspaceId

end Request

/-! ### Calls that run together -/

structure Call where
  request : Request
  phase : Phase

/-- A stored value, with the call that wrote it. -/
structure Entry where
  value : CacheValue
  owner : CallId
  deriving DecidableEq

structure State where
  calls : CallId → Option Call
  nextCall : CallId
  cache : CacheKey → Option Entry
  nodes : NodeId → Option NodeRow
  memberships : UserId → WorkspaceId → Option Role
  applied : List CallId
  broadcasts : List (NodeId × YDoc)

namespace State

def init (nodes : NodeId → Option NodeRow) (memberships : UserId → WorkspaceId → Option Role) :
    State where
  calls _ := none
  nextCall := 0
  cache _ := none
  nodes := nodes
  memberships := memberships
  applied := []
  broadcasts := []

/-- A call begins. -/
def start (s : State) (request : Request) (phase : Phase) : State :=
  { s with
    calls := Function.update s.calls s.nextCall (some ⟨request, phase⟩)
    nextCall := s.nextCall + 1 }

/-- The call `i` goes on to `phase`. -/
def setPhase (s : State) (i : CallId) (call : Call) (phase : Phase) : State :=
  { s with calls := Function.update s.calls i (some { call with phase := phase }) }

def setCache (s : State) (key : CacheKey) (entry : Option Entry) : State :=
  { s with cache := Function.update s.cache key entry }

end State

/-- How the promise of `appendMarkdown` settles, and whether `broadcastYjsUpdate`
throws then. -/
inductive Appended
  | resolved (update : YDoc) (version updatedAt operationId : ℕ) (broadcasts : Bool)
  | rejected
  deriving DecidableEq

inductive Event
  | execute (userId : UserId) (workspaceId : WorkspaceId) (nodeId : NodeId)
      (idempotencyKey : Option String) (body : NodeContentOperationBody)
  | patch (payload : NodeBodyPatchPayload)
  | membershipReply (i : CallId) (ok : Bool)
  | nodeReply (i : CallId) (ok : Bool)
  | redisReply (i : CallId) (reply : Reply)
  | appendReply (i : CallId) (result : Appended)
  /-- An `IN_PROGRESS` claim lapses, 60 s after it was set. -/
  | claimExpire (key : CacheKey)
  /-- A response, or the claim of a patch, lapses after 24 h. -/
  | responseExpire (key : CacheKey)
  | writeNode (nodeId : NodeId) (row : Option NodeRow)
  | setMembership (userId : UserId) (workspaceId : WorkspaceId) (role : Option Role)
  deriving DecidableEq

namespace State

/-- `checkWorkspace` answers, or rejects. -/
def membershipReply (s : State) (i : CallId) (ok : Bool) : Option State :=
  match s.calls i with
  | none => none
  | some call =>
      match call.phase, call.request with
      | .checkWorkspace, .operation userId workspaceId _ _ _ =>
          some (s.setPhase i call (if ok then
            checkEditPermission (s.memberships userId workspaceId)
            else .returned (.error .database)))
      | _, _ => none

/-- `selectNodeById` answers, or rejects. -/
def nodeReply (s : State) (i : CallId) (ok : Bool) : Option State :=
  match s.calls i with
  | none => none
  | some call =>
      match call.phase with
      | .selectNodeById =>
          some (s.setPhase i call (if ok then
            call.request.withNode
              (selectNodeById s.nodes call.request.workspaceId call.request.nodeId)
            else .returned (.error .database)))
      | _ => none

variable (hash : NodeContentOperationBody → String)

/-- A command of Redis that the call `i` awaits ends with `reply`. -/
def redisReply (s : State) (i : CallId) (reply : Reply) : Option State :=
  match s.calls i with
  | none => none
  | some call =>
      let key := call.request.cacheKey
      match call.phase with
      | .get version =>
          some (s.setPhase i call (if reply = .ok then
            call.request.withCached hash version ((s.cache key).map Entry.value)
            else .returned (.error .redis)))
      | .claim version =>
          let vacant := (s.cache key).isNone
          let s' := if reply.executed && vacant then
            s.setCache key (some ⟨call.request.claimValue hash, i⟩) else s
          some (s'.setPhase i call (if reply = .ok then
            if vacant then .appendMarkdown version else call.request.unclaimed
            else .returned (.error .redis)))
      | .release error =>
          let s' := if reply.executed then s.setCache key none else s
          some (s'.setPhase i call (if reply = .ok then call.request.released error
            else .returned (.error .redis)))
      | .store response =>
          let s' := if reply.executed then
            s.setCache key (some ⟨call.request.responseValue hash response, i⟩) else s
          some (s'.setPhase i call (.returned (if reply = .ok then .ok (some response)
            else .error .redis)))
      | _ => none

/-- `appendMarkdown` settles. -/
def appendReply (s : State) (i : CallId) (result : Appended) : Option State :=
  match s.calls i with
  | none => none
  | some call =>
      match call.phase, result with
      | .appendMarkdown _, .rejected => some (s.setPhase i call (.release .append))
      | .appendMarkdown previousVersion, .resolved update version updatedAt operationId ok =>
          let s' := { s with applied := s.applied ++ [i] }
          if ok then
            some ({ s' with
              broadcasts := s.broadcasts ++ [(call.request.nodeId, update)] }.setPhase i call
                (call.request.appended previousVersion operationId version updatedAt))
          else some (s'.setPhase i call call.request.unannounced)
      | _, _ => none

end State

/-- One step of the service. -/
def step (hash : NodeContentOperationBody → String) (s : State) : Event → Option State
  | .execute userId workspaceId nodeId idempotencyKey body =>
      match executeContentOperation userId workspaceId nodeId idempotencyKey body with
      | .error _ => some s
      | .ok request => some (s.start request .checkWorkspace)
  | .patch payload =>
      match applyNodeBodyPatch payload with
      | none => some s
      | some request => some (s.start request .selectNodeById)
  | .membershipReply i ok => s.membershipReply i ok
  | .nodeReply i ok => s.nodeReply i ok
  | .redisReply i reply => s.redisReply hash i reply
  | .appendReply i result => s.appendReply i result
  | .claimExpire key =>
      match s.cache key with
      | some ⟨.inProgress _, _⟩ => some (s.setCache key none)
      | _ => none
  | .responseExpire key =>
      match s.cache key with
      | some ⟨.response _ _, _⟩ => some (s.setCache key none)
      | some ⟨.applied, _⟩ => some (s.setCache key none)
      | _ => none
  | .writeNode nodeId row => some { s with nodes := Function.update s.nodes nodeId row }
  | .setMembership userId workspaceId role =>
      some { s with
        memberships := Function.update s.memberships userId
          (Function.update (s.memberships userId) workspaceId role) }

/-- What passes the first checks is an operation on what has been asked for. -/
theorem executeContentOperation_eq_ok {userId : UserId} {workspaceId : WorkspaceId}
    {nodeId : NodeId} {idempotencyKey : Option String} {body : NodeContentOperationBody}
    {request : Request}
    (h : executeContentOperation userId workspaceId nodeId idempotencyKey body = .ok request) :
    ∃ key, idempotencyKey = some key ∧
      request = .operation userId workspaceId nodeId key body := by
  unfold executeContentOperation at h
  split at h
  · cases h
  · next key =>
      split at h
      · cases h
      · split at h
        · cases h
        · exact ⟨key, rfl, (Except.ok.inj h).symm⟩

/-! ### A command of Redis, one step -/

variable {hash : NodeContentOperationBody → String} {s s' : State} {i : CallId} {reply : Reply}

/-- What a reply of Redis does to the call that awaits it, and to its key. -/
inductive RedisStep (hash : NodeContentOperationBody → String) (s : State) (i : CallId)
    (reply : Reply) (s' : State) : Prop
  | got (call : Call) (version : ℕ) (hcall : s.calls i = some call)
      (hphase : call.phase = .get version)
      (hs' : s' = s.setPhase i call (if reply = .ok then
        call.request.withCached hash version ((s.cache call.request.cacheKey).map Entry.value)
        else .returned (.error .redis)))
  /-- `SET NX` has found the key vacant; the reply may be lost all the same. -/
  | claimed (call : Call) (version : ℕ) (phase : Phase) (hcall : s.calls i = some call)
      (hphase : call.phase = .claim version) (hvacant : s.cache call.request.cacheKey = none)
      (hexecuted : reply.executed = true)
      (hphase' : phase = .appendMarkdown version ∨ phase = .returned (.error .redis))
      (hs' : s' = (s.setCache call.request.cacheKey
        (some ⟨call.request.claimValue hash, i⟩)).setPhase i call phase)
  | unclaimed (call : Call) (version : ℕ) (phase : Phase) (hcall : s.calls i = some call)
      (hphase : call.phase = .claim version)
      (hphase' : phase = call.request.unclaimed ∨ phase = .returned (.error .redis))
      (hs' : s' = s.setPhase i call phase)
  | released (call : Call) (error : OperationError) (phase : Phase)
      (hcall : s.calls i = some call) (hphase : call.phase = .release error)
      (hphase' : phase = call.request.released error ∨ phase = .returned (.error .redis))
      (hs' : s' = (if reply.executed then s.setCache call.request.cacheKey none
        else s).setPhase i call phase)
  | stored (call : Call) (response : NodeContentOperationResponse)
      (hcall : s.calls i = some call) (hphase : call.phase = .store response)
      (hexecuted : reply.executed = true)
      (hs' : s' = (s.setCache call.request.cacheKey
        (some ⟨call.request.responseValue hash response, i⟩)).setPhase i call
          (.returned (if reply = .ok then .ok (some response) else .error .redis)))
  | notStored (call : Call) (response : NodeContentOperationResponse)
      (hcall : s.calls i = some call) (hphase : call.phase = .store response)
      (hs' : s' = s.setPhase i call (.returned (.error .redis)))

theorem State.redisReply_step (h : s.redisReply hash i reply = some s') :
    RedisStep hash s i reply s' := by
  unfold State.redisReply at h
  split at h
  · cases h
  · next call hcall =>
      dsimp only at h
      split at h
      · next version hphase =>
          cases h
          exact .got call version hcall hphase rfl
      · next version hphase =>
          cases hcache : s.cache call.request.cacheKey with
          | some entry =>
              simp only [hcache, Option.isNone_some, Bool.and_false, Bool.false_eq_true,
                if_false] at h
              cases h
              refine .unclaimed call version _ hcall hphase ?_ rfl
              split
              · exact Or.inl rfl
              · exact Or.inr rfl
          | none =>
              simp only [hcache, Option.isNone_none, Bool.and_true, if_true] at h
              cases hexecuted : reply.executed with
              | true =>
                  simp only [hexecuted, if_true] at h
                  cases h
                  refine .claimed call version _ hcall hphase hcache hexecuted ?_ rfl
                  split
                  · exact Or.inl rfl
                  · exact Or.inr rfl
              | false =>
                  have hreply : reply ≠ .ok := by
                    rintro rfl
                    cases hexecuted
                  simp only [hexecuted, Bool.false_eq_true, if_false, if_neg hreply] at h
                  cases h
                  exact .unclaimed call version _ hcall hphase (Or.inr rfl) rfl
      · next error hphase =>
          cases h
          refine .released call error _ hcall hphase ?_ rfl
          split
          · exact Or.inl rfl
          · exact Or.inr rfl
      · next response hphase =>
          cases hexecuted : reply.executed with
          | true =>
              simp only [hexecuted, if_true] at h
              cases h
              exact .stored call response hcall hphase hexecuted rfl
          | false =>
              have hreply : reply ≠ .ok := by
                rintro rfl
                cases hexecuted
              simp only [hexecuted, Bool.false_eq_true, if_false, if_neg hreply] at h
              cases h
              exact .notStored call response hcall hphase rfl
      · cases h

/-- A reply is for a call that awaits one. -/
theorem RedisStep.call (h : RedisStep hash s i reply s') : ∃ call, s.calls i = some call := by
  cases h with
  | got call _ hcall => exact ⟨call, hcall⟩
  | claimed call _ _ hcall => exact ⟨call, hcall⟩
  | unclaimed call _ _ hcall => exact ⟨call, hcall⟩
  | released call _ _ hcall => exact ⟨call, hcall⟩
  | stored call _ hcall => exact ⟨call, hcall⟩
  | notStored call _ hcall => exact ⟨call, hcall⟩

/-! ### One step -/

variable {result : Appended} {e : Event}

/-- How an append settles for the call that awaits it. -/
inductive AppendStep (s : State) (i : CallId) : Appended → State → Prop
  | rejected (call : Call) (version : ℕ) (hcall : s.calls i = some call)
      (hphase : call.phase = .appendMarkdown version) :
      AppendStep s i .rejected (s.setPhase i call (.release .append))
  | announced (call : Call) (previousVersion : ℕ) (update : YDoc)
      (version updatedAt operationId : ℕ) (hcall : s.calls i = some call)
      (hphase : call.phase = .appendMarkdown previousVersion) :
      AppendStep s i (.resolved update version updatedAt operationId true) (State.setPhase
        { s with
          applied := s.applied ++ [i]
          broadcasts := s.broadcasts ++ [(call.request.nodeId, update)] } i call
        (call.request.appended previousVersion operationId version updatedAt))
  /-- `broadcastYjsUpdate` throws. -/
  | unannounced (call : Call) (previousVersion : ℕ) (update : YDoc)
      (version updatedAt operationId : ℕ) (hcall : s.calls i = some call)
      (hphase : call.phase = .appendMarkdown previousVersion) :
      AppendStep s i (.resolved update version updatedAt operationId false) (State.setPhase
        { s with applied := s.applied ++ [i] } i call call.request.unannounced)

theorem State.appendReply_step (h : s.appendReply i result = some s') :
    AppendStep s i result s' := by
  unfold State.appendReply at h
  split at h
  · cases h
  · next call hcall =>
      split at h
      · next version hphase =>
          cases h
          exact .rejected call version hcall hphase
      · next previousVersion update version updatedAt operationId ok hphase =>
          cases ok with
          | true =>
              cases h
              exact .announced call previousVersion update version updatedAt operationId hcall
                hphase
          | false =>
              cases h
              exact .unannounced call previousVersion update version updatedAt operationId hcall
                hphase
      · cases h

/-- **What a step can do**, event by event. -/
inductive StepCase (hash : NodeContentOperationBody → String) (s : State) : Event → State → Prop
  /-- The first checks reject the request. -/
  | refused (userId : UserId) (workspaceId : WorkspaceId) (nodeId : NodeId)
      (idempotencyKey : Option String) (body : NodeContentOperationBody) :
      StepCase hash s (.execute userId workspaceId nodeId idempotencyKey body) s
  | execute (userId : UserId) (workspaceId : WorkspaceId) (nodeId : NodeId)
      (idempotencyKey : Option String) (body : NodeContentOperationBody) (request : Request)
      (hrequest : executeContentOperation userId workspaceId nodeId idempotencyKey body =
        .ok request) :
      StepCase hash s (.execute userId workspaceId nodeId idempotencyKey body)
        (s.start request .checkWorkspace)
  /-- The payload is that of no append. -/
  | ignored (payload : NodeBodyPatchPayload) : StepCase hash s (.patch payload) s
  | patch (payload : NodeBodyPatchPayload) (request : Request)
      (hrequest : applyNodeBodyPatch payload = some request) :
      StepCase hash s (.patch payload) (s.start request .selectNodeById)
  | membershipReply (i : CallId) (ok : Bool) (call : Call) (hcall : s.calls i = some call)
      (hphase : call.phase = .checkWorkspace) (userId : UserId) (workspaceId : WorkspaceId)
      (hrequest : ∃ nodeId key body,
        call.request = .operation userId workspaceId nodeId key body) :
      StepCase hash s (.membershipReply i ok) (s.setPhase i call (if ok then
        checkEditPermission (s.memberships userId workspaceId)
        else .returned (.error .database)))
  | nodeReply (i : CallId) (ok : Bool) (call : Call) (hcall : s.calls i = some call)
      (hphase : call.phase = .selectNodeById) :
      StepCase hash s (.nodeReply i ok) (s.setPhase i call (if ok then
        call.request.withNode
          (selectNodeById s.nodes call.request.workspaceId call.request.nodeId)
        else .returned (.error .database)))
  | redisReply (i : CallId) (reply : Reply) (s' : State) (hstep : RedisStep hash s i reply s') :
      StepCase hash s (.redisReply i reply) s'
  | appendReply (i : CallId) (result : Appended) (s' : State)
      (hstep : AppendStep s i result s') : StepCase hash s (.appendReply i result) s'
  | claimExpire (key : CacheKey) (requestHash : String) (owner : CallId)
      (hentry : s.cache key = some ⟨.inProgress requestHash, owner⟩) :
      StepCase hash s (.claimExpire key) (s.setCache key none)
  | responseExpire (key : CacheKey) : StepCase hash s (.responseExpire key) (s.setCache key none)
  | writeNode (nodeId : NodeId) (row : Option NodeRow) :
      StepCase hash s (.writeNode nodeId row)
        { s with nodes := Function.update s.nodes nodeId row }
  | setMembership (userId : UserId) (workspaceId : WorkspaceId) (role : Option Role) :
      StepCase hash s (.setMembership userId workspaceId role)
        { s with
          memberships := Function.update s.memberships userId
            (Function.update (s.memberships userId) workspaceId role) }

theorem step_cases (h : step hash s e = some s') : StepCase hash s e s' := by
  cases e with
  | execute userId workspaceId nodeId idempotencyKey body =>
      simp only [step] at h
      split at h <;> cases h
      · exact .refused ..
      · next request hrequest => exact .execute _ _ _ _ _ request hrequest
  | patch payload =>
      simp only [step] at h
      split at h <;> cases h
      · exact .ignored payload
      · next request hrequest => exact .patch payload request hrequest
  | membershipReply i ok =>
      simp only [step, State.membershipReply] at h
      split at h
      · cases h
      · next call hcall =>
          split at h
          · next userId workspaceId nodeId key body hphase hrequest =>
              cases h
              exact .membershipReply i ok call hcall hphase userId workspaceId
                ⟨nodeId, key, body, hrequest⟩
          · cases h
  | nodeReply i ok =>
      simp only [step, State.nodeReply] at h
      split at h
      · cases h
      · next call hcall =>
          split at h
          · next hphase =>
              cases h
              exact .nodeReply i ok call hcall hphase
          · cases h
  | redisReply i reply => exact .redisReply i reply s' (State.redisReply_step h)
  | appendReply i result => exact .appendReply i result s' (State.appendReply_step h)
  | claimExpire key =>
      simp only [step] at h
      split at h
      · next requestHash owner hentry =>
          cases h
          exact .claimExpire key requestHash owner hentry
      · cases h
  | responseExpire key =>
      simp only [step] at h
      split at h <;> cases h
      · exact .responseExpire key
      · exact .responseExpire key
  | writeNode nodeId row =>
      cases h
      exact .writeNode nodeId row
  | setMembership userId workspaceId role =>
      cases h
      exact .setMembership userId workspaceId role

end AideepWebsocket.NodeContent
