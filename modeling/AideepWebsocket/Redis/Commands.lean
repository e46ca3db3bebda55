import AideepWebsocket.Redis.Tables

/-!
# Commands and tables

One command at a time: what it leaves in the store represents what the model leaves in its
table, and its answer says what the model reads there.  There is a pair of lemmas for each
owner of commands: the handlers of the gateway (`represents_gateway`, `resume_gateway`),
the manager (`represents_loadFromRedis`, `represents_saveToRedis`, `represents_deleteFromRedis`,
`loadedFromRedis_docs`), the embedding queue (`represents_enqueueEmbedJob`) and the calls of the
service (`represents_call`, `resume_call`).
-/

namespace AideepWebsocket.Redis

open Library
open Library.Redis (Answer Command Entry Store execute)
open DocManager (Cached EmbedJob RedisCommand)
open Gateway (Bytes PresenceMember)
open NodeContent (CacheKey CallId NodeContentOperationBody)

namespace Tables

/-- The hash of a workspace, with other members. -/
def setPresence (T : Tables) (workspaceId : WorkspaceId) (members : List PresenceMember) : Tables :=
  { T with presence := Function.update T.presence workspaceId members }

/-- The cached awareness of a workspace. -/
def setAwareness (T : Tables) (workspaceId : WorkspaceId) (data : Option Bytes) : Tables :=
  { T with awareness := Function.update T.awareness workspaceId data }

/-- The cached state of a node. -/
def setDoc (T : Tables) (nodeId : NodeId) (cached : Option Cached) : Tables :=
  { T with docs := Function.update T.docs nodeId cached }

/-- A job at the end of the queue. -/
def addJob (T : Tables) (job : EmbedJob) : Tables := { T with jobs := T.jobs ++ [job] }

/-- The entry of an operation. -/
def setCache (T : Tables) (key : CacheKey) (entry : Option NodeContent.Entry) : Tables :=
  { T with cache := Function.update T.cache key entry }

end Tables

variable {F : Format} {T : Tables} {taken : List String} {store : Store} {command : Command}

/-! ### A table says nothing about the keys of the others -/

/-- The members of a workspace are under their own key. -/
private theorem holds_setPresence {workspaceId : WorkspaceId} {members : List PresenceMember}
    (key : Key) (entry : Option Entry) (hne : key ≠ .WS_PRESENCE workspaceId)
    (h : F.Holds T taken key entry) :
    F.Holds (T.setPresence workspaceId members) taken key entry := by
  cases key with
  | WS_PRESENCE workspaceId' =>
      have hother : workspaceId' ≠ workspaceId := fun heq => hne (congrArg Key.WS_PRESENCE heq)
      simpa [Format.Holds, Tables.setPresence, Function.update_of_ne hother] using h
  | _ => exact h

/-- So is the awareness. -/
private theorem holds_setAwareness {workspaceId : WorkspaceId} {data : Option Bytes} (key : Key)
    (entry : Option Entry) (hne : key ≠ .YJS_WS_AWARENESS workspaceId)
    (h : F.Holds T taken key entry) :
    F.Holds (T.setAwareness workspaceId data) taken key entry := by
  cases key with
  | YJS_WS_AWARENESS workspaceId' =>
      have hother : workspaceId' ≠ workspaceId := fun heq => hne (congrArg Key.YJS_WS_AWARENESS heq)
      simpa [Format.Holds, Tables.setAwareness, Function.update_of_ne hother] using h
  | _ => exact h

/-- So is the state of a node. -/
private theorem holds_setDoc {nodeId : NodeId} {cached : Option Cached} (key : Key)
    (entry : Option Entry) (hne : key ≠ .YJS_DOC nodeId) (h : F.Holds T taken key entry) :
    F.Holds (T.setDoc nodeId cached) taken key entry := by
  cases key with
  | YJS_DOC nodeId' =>
      have hother : nodeId' ≠ nodeId := fun heq => hne (congrArg Key.YJS_DOC heq)
      simpa [Format.Holds, Tables.setDoc, Function.update_of_ne hother] using h
  | _ => exact h

/-- So is the queue. -/
private theorem holds_addJob {job : EmbedJob} (key : Key) (entry : Option Entry)
    (hne : key ≠ .EMBED_JOBS_QUEUE) (h : F.Holds T taken key entry) :
    F.Holds (T.addJob job) taken key entry := by
  cases key with
  | EMBED_JOBS_QUEUE => exact absurd rfl hne
  | _ => exact h

/-- So is the entry of an operation. -/
private theorem holds_setCache {cacheKey : CacheKey} {cached : Option NodeContent.Entry} (key : Key)
    (entry : Option Entry) (hne : key ≠ .NODE_CONTENT_OPERATION cacheKey)
    (h : F.Holds T taken key entry) : F.Holds (T.setCache cacheKey cached) taken key entry := by
  cases key with
  | NODE_CONTENT_OPERATION cacheKey' =>
      have hother : cacheKey' ≠ cacheKey := fun heq =>
        hne (congrArg Key.NODE_CONTENT_OPERATION heq)
      simpa [Format.Holds, Tables.setCache, Function.update_of_ne hother] using h
  | _ => exact h

/-! ### The gateway -/

/-- The fields of a hash are set and deleted as the members of the table. -/
private theorem setField_presence (members : List PresenceMember) (member : PresenceMember) :
    Command.setField (members.map F.presenceField) (F.presenceField member).1
      (F.presenceField member).2 =
      (Gateway.State.hSet members member).map F.presenceField := by
  have hsame (m : PresenceMember) :
      (F.presenceField m).1 = (F.presenceField member).1 ↔ m.userId = member.userId :=
    F.names.user.write_inj
  unfold Command.setField Gateway.State.hSet
  simp only [List.any_map, Function.comp_def, hsame]
  split
  · rw [List.map_map, List.map_map]
    refine List.map_congr_left fun m _ => ?_
    simp only [Function.comp_apply, hsame]
    split <;> rfl
  · rw [List.map_append]
    rfl

/-- A member whose field is deleted is gone from the list. -/
private theorem deleteField_presence (members : List PresenceMember) (userId : UserId) :
    Command.deleteField (members.map F.presenceField) (F.names.user.write userId) =
      (Gateway.State.hDel members userId).map F.presenceField := by
  have hsame (m : PresenceMember) :
      (F.presenceField m).1 = F.names.user.write userId ↔ m.userId = userId :=
    F.names.user.write_inj
  unfold Command.deleteField Gateway.State.hDel
  rw [List.filter_map]
  refine congrArg (List.map F.presenceField) (List.filter_congr fun m _ => ?_)
  simp only [Function.comp_apply, ne_eq, hsame]

/-- What the command of a handler leaves in the tables. -/
def Tables.afterGateway (T : Tables) : Gateway.Pending → Tables
  | .joinUpsertPresence workspaceId member =>
      T.setPresence workspaceId (Gateway.State.hSet (T.presence workspaceId) member)
  | .leaveRemovePresence workspaceId userId =>
      T.setPresence workspaceId (Gateway.State.hDel (T.presence workspaceId) userId)
  | .cacheAwareness workspaceId data => T.setAwareness workspaceId (some data)
  | _ => T

variable {g : Gateway.State} {pending : Gateway.Pending}

/-- The gateway leaves in its tables what the command leaves in them. -/
theorem executeCommand_intoGateway :
    (T.intoGateway g).executeCommand pending = (T.afterGateway pending).intoGateway g := by
  cases pending <;> rfl

/-- A command on the hash of a workspace, in general. -/
private theorem represents_presence (h : F.Represents T taken store) {workspaceId : WorkspaceId}
    {members : List PresenceMember} (hkey : command.key = F.key (.WS_PRESENCE workspaceId))
    (hrun : ∀ ttl, ∃ ttl' answer, command.run F.order
      (Command.hashEntry ((T.presence workspaceId).map F.presenceField) ttl) =
        (Command.hashEntry (members.map F.presenceField) ttl', answer)) :
    F.Represents (T.setPresence workspaceId members) taken (execute F.order store command).1 := by
  refine h.execute hkey (fun key entry => holds_setPresence key entry) ?_
  obtain ⟨ttl, hentry⟩ := h (.WS_PRESENCE workspaceId)
  obtain ⟨ttl', answer, hrun⟩ := hrun ttl
  rw [hentry, hrun]
  exact ⟨ttl', by simp [Tables.setPresence]⟩

/-- A command that leaves the members of a workspace alone. -/
private theorem represents_presence_self (h : F.Represents T taken store)
    {workspaceId : WorkspaceId} (hkey : command.key = F.key (.WS_PRESENCE workspaceId))
    (hrun : ∀ ttl, ∃ ttl' answer, command.run F.order
      (Command.hashEntry ((T.presence workspaceId).map F.presenceField) ttl) =
        (Command.hashEntry ((T.presence workspaceId).map F.presenceField) ttl', answer)) :
    F.Represents T taken (execute F.order store command).1 := by
  have hsame : T.setPresence workspaceId (T.presence workspaceId) = T := by
    simp [Tables.setPresence]
  rw [← hsame]
  exact represents_presence h hkey hrun

/-- **The gateway commands Redis** as the model says. -/
theorem represents_gateway (h : F.Represents T taken store)
    (hcommand : F.gatewayCommand pending = some command) :
    F.Represents (T.afterGateway pending) taken (execute F.order store command).1 := by
  cases pending with
  | joinGetCachedAwareness workspaceId member =>
      cases hcommand
      refine h.execute (rfl : _ = F.key (.YJS_WS_AWARENESS workspaceId)) (fun _ _ _ hold => hold) ?_
      rw [Format.getCachedAwareness, Command.run_get]
      exact h _
  | joinUpsertPresence workspaceId member =>
      cases hcommand
      refine represents_presence h rfl fun ttl => ?_
      obtain ⟨ttl', n, hrun⟩ := Command.run_hSet F.order (F.key (.WS_PRESENCE workspaceId))
        (F.presenceField member).1 (F.presenceField member).2
        ((T.presence workspaceId).map F.presenceField) ttl
      exact ⟨ttl', _, by rw [Format.upsertPresence, hrun, setField_presence]⟩
  | joinExpirePresence workspaceId =>
      cases hcommand
      refine represents_presence_self h rfl fun ttl => ?_
      obtain ⟨ttl', n, hrun⟩ := Command.run_expire F.order (F.key (.WS_PRESENCE workspaceId))
        ((T.presence workspaceId).map F.presenceField) ttl WS_PRESENCE_TTL_SEC
      exact ⟨ttl', _, hrun⟩
  | joinListPresence workspaceId =>
      cases hcommand
      exact represents_presence_self h rfl fun ttl => ⟨ttl, _, Command.run_hGetAll F.order ..⟩
  | leaveListPresence workspaceId =>
      cases hcommand
      exact represents_presence_self h rfl fun ttl => ⟨ttl, _, Command.run_hGetAll F.order ..⟩
  | leaveRemovePresence workspaceId userId =>
      cases hcommand
      refine represents_presence h rfl fun ttl => ?_
      obtain ⟨n, hrun⟩ := Command.run_hDel F.order (F.key (.WS_PRESENCE workspaceId))
        (F.names.user.write userId) ((T.presence workspaceId).map F.presenceField) ttl
      exact ⟨ttl, _, by rw [Format.removePresence, hrun, deleteField_presence]⟩
  | cacheAwareness workspaceId data =>
      cases hcommand
      refine h.execute (rfl : _ = F.key (.YJS_WS_AWARENESS workspaceId))
        (fun key entry => holds_setAwareness key entry) ?_
      simp [Format.Holds, Tables.afterGateway, Tables.setAwareness, Command.run,
        Format.cacheAwareness, Format.awarenessEntry]
  | joinCheckWorkspace workspaceId member => cases hcommand
  | yjsCheckWorkspace userId workspaceId nodeId => cases hcommand
  | yjsGetOrCreateDoc workspaceId role nodeId get => cases hcommand

/-- A command on the hash of a workspace is answered with a number. -/
private theorem done_of_presence (h : F.Represents T taken store) {workspaceId : WorkspaceId}
    (hkey : command.key = F.key (.WS_PRESENCE workspaceId))
    (hrun : ∀ ttl, ∃ n, (command.run F.order
      (Command.hashEntry ((T.presence workspaceId).map F.presenceField) ttl)).2 = .integer n) :
    F.gatewayAnswer (execute F.order store command).2 = .done := by
  obtain ⟨ttl, hentry⟩ := h (.WS_PRESENCE workspaceId)
  obtain ⟨n, hrun⟩ := hrun ttl
  rw [Library.Redis.answer_execute, hkey, hentry, hrun]
  rfl

/-- `listPresence` finds the members, in the order of Redis. -/
private theorem members_of_listPresence (h : F.Represents T taken store)
    (workspaceId : WorkspaceId) :
    F.gatewayAnswer (execute F.order store (F.listPresence workspaceId)).2 =
      .hash (F.listed (T.presence workspaceId)) := by
  obtain ⟨ttl, hentry⟩ := h (.WS_PRESENCE workspaceId)
  rw [Library.Redis.answer_execute, Format.listPresence, Command.key, hentry, Command.run_hGetAll,
    Format.gatewayAnswer, Format.presenceMembers_listed]

/-- **The handler goes on** as it would with what the table says, but for the order of the
members. -/
theorem resume_gateway (h : F.Represents T taken store)
    (hcommand : F.gatewayCommand pending = some command) (handler : Gateway.HandlerId)
    (socket : SocketId) (g' : Gateway.State) :
    g'.resume handler socket (F.gatewayAnswer (execute F.order store command).2) pending =
      (g'.resume handler socket ((T.intoGateway g).answerTo pending) pending).map id
        (List.map F.relisted) := by
  cases pending with
  | joinGetCachedAwareness workspaceId member =>
      cases hcommand
      have hentry : store (F.key (.YJS_WS_AWARENESS workspaceId)) =
        (T.awareness workspaceId).map Format.awarenessEntry := h (.YJS_WS_AWARENESS workspaceId)
      have hanswer :
          (F.gatewayAnswer (execute F.order store (F.getCachedAwareness workspaceId)).2) =
          .value ((T.awareness workspaceId).filter (· ≠ [])) := by
        rw [Library.Redis.answer_execute, Format.getCachedAwareness, Command.key, hentry]
        cases T.awareness workspaceId with
        | none => rfl
        | some data =>
            by_cases hdata : data = []
            · subst hdata
              rfl
            · simp [Command.run, Format.awarenessEntry, Format.gatewayAnswer, base64_eq_empty,
                hdata, fromBase64_base64, Option.filter]
      have hemit (data : Bytes) : F.relisted (g'.emit socket (.yjsWsAwareness workspaceId data)) =
          g'.emit socket (.yjsWsAwareness workspaceId data) := rfl
      rw [hanswer]
      simp [Gateway.State.resume, Gateway.State.answerTo, Tables.intoGateway, Option.filter_filter,
        hemit]
  | joinUpsertPresence workspaceId member =>
      cases hcommand
      rw [done_of_presence h rfl fun ttl => ?_]
      · rfl
      · obtain ⟨ttl', n, hrun⟩ := Command.run_hSet F.order (F.key (.WS_PRESENCE workspaceId))
          (F.presenceField member).1 (F.presenceField member).2
          ((T.presence workspaceId).map F.presenceField) ttl
        exact ⟨n, congrArg Prod.snd hrun⟩
  | joinExpirePresence workspaceId =>
      cases hcommand
      rw [done_of_presence h rfl fun ttl => ?_]
      · rfl
      · obtain ⟨ttl', n, hrun⟩ := Command.run_expire F.order (F.key (.WS_PRESENCE workspaceId))
          ((T.presence workspaceId).map F.presenceField) ttl WS_PRESENCE_TTL_SEC
        exact ⟨n, congrArg Prod.snd hrun⟩
  | joinListPresence workspaceId =>
      cases hcommand
      rw [members_of_listPresence h]
      rfl
  | leaveListPresence workspaceId =>
      cases hcommand
      rw [members_of_listPresence h]
      rfl
  | leaveRemovePresence workspaceId userId =>
      cases hcommand
      rw [done_of_presence h rfl fun ttl => ?_]
      · rfl
      · obtain ⟨n, hrun⟩ := Command.run_hDel F.order (F.key (.WS_PRESENCE workspaceId))
          (F.names.user.write userId) ((T.presence workspaceId).map F.presenceField) ttl
        exact ⟨n, congrArg Prod.snd hrun⟩
  | cacheAwareness workspaceId data =>
      cases hcommand
      rfl
  | joinCheckWorkspace workspaceId member => cases hcommand
  | yjsCheckWorkspace userId workspaceId nodeId => cases hcommand
  | yjsGetOrCreateDoc workspaceId role nodeId get => cases hcommand

/-! ### The manager -/

/-- A read. -/
private theorem represents_get (h : F.Represents T taken store) (key : Key) :
    F.Represents T taken (execute F.order store (.get (F.key key))).1 := by
  refine h.execute (rfl : _ = F.key key) (fun _ _ _ hold => hold) ?_
  rw [Command.run_get]
  exact h key

/-- A read leaves everything as it is. -/
theorem represents_loadFromRedis (h : F.Represents T taken store) (nodeId : NodeId) :
    F.Represents T taken (execute F.order store (F.loadFromRedis nodeId)).1 := represents_get h _

/-- **A load finds what the table says.** -/
theorem loadedFromRedis_docs (h : F.Represents T taken store) (nodeId : NodeId) :
    F.loadedFromRedis (execute F.order store (F.loadFromRedis nodeId)).2 =
      .redisAnswered ((T.docs nodeId).map Cached.state) := by
  have hentry : store (F.key (.YJS_DOC nodeId)) = (T.docs nodeId).map F.docEntry :=
    h (.YJS_DOC nodeId)
  rw [Library.Redis.answer_execute, Format.loadFromRedis, Command.key, hentry]
  cases T.docs nodeId with
  | none => rfl
  | some cached =>
      have htext : base64 (F.yjs.write cached.state) ≠ "" :=
        fun hempty => F.yjs_ne_nil _ (base64_eq_empty.mp hempty)
      simp [Command.run, Format.docEntry, Format.loadedFromRedis, htext, fromBase64_base64,
        F.yjs.read_write]

/-- The state is cached under the key of its node. -/
theorem represents_saveToRedis (h : F.Represents T taken store) (nodeId : NodeId)
    (cached : Cached) :
    F.Represents (T.setDoc nodeId (some cached)) taken
      (execute F.order store (F.saveToRedis nodeId cached.state)).1 := by
  refine h.execute (rfl : _ = F.key (.YJS_DOC nodeId)) (fun key entry => holds_setDoc key entry) ?_
  simp [Format.Holds, Tables.setDoc, Command.run, Format.saveToRedis, Format.docEntry]

/-- The key of the node is deleted. -/
theorem represents_deleteFromRedis (h : F.Represents T taken store) (nodeId : NodeId) :
    F.Represents (T.setDoc nodeId none) taken
      (execute F.order store (F.deleteFromRedis nodeId)).1 := by
  refine h.execute (rfl : _ = F.key (.YJS_DOC nodeId)) (fun key entry => holds_setDoc key entry) ?_
  simp [Format.Holds, Tables.setDoc, Command.run, Format.deleteFromRedis]

/-- A command on a key of the API server. -/
theorem represents_foreign (h : F.Represents T taken store) {key : Key}
    (hforeign : key.foreign = true) (hkey : command.key = F.key key) :
    F.Represents T taken (execute F.order store command).1 := by
  refine h.execute hkey (fun _ _ _ hold => hold) ?_
  cases key with
  | BLACKLIST accessToken => trivial
  | MASTER_TOKEN userId => trivial
  | WORKSPACE_SYNC workspaceId => trivial
  | _ => cases hforeign

/-- **A job joins the queue** behind those that the worker has not taken. -/
theorem represents_enqueueEmbedJob (h : F.Represents T taken store) (job : EmbedJob) :
    F.Represents (T.addJob job) taken (execute F.order store (F.enqueueEmbedJob job)).1 := by
  refine h.execute (rfl : _ = F.key .EMBED_JOBS_QUEUE) (fun key entry => holds_addJob key entry) ?_
  obtain ⟨items, hentry, hitems⟩ := h .EMBED_JOBS_QUEUE
  refine ⟨items ++ [F.jobText job], ?_, ?_⟩
  · rw [hentry]
    cases items <;> rfl
  · rw [← List.append_assoc, hitems, Tables.addJob, List.map_append]
    rfl

/-- **The worker takes the oldest job.** -/
theorem represents_takeJob (h : F.Represents T taken store) {item : String} {items : List String}
    {ttl : Option ℕ}
    (hentry : store (F.key .EMBED_JOBS_QUEUE) = some ⟨.list (item :: items), ttl⟩) :
    F.Represents T (taken ++ [item])
      (Function.update store (F.key .EMBED_JOBS_QUEUE) (Format.listEntry items)) := by
  intro key
  by_cases hkey : key = .EMBED_JOBS_QUEUE
  · subst hkey
    rw [Function.update_self]
    obtain ⟨waiting, hlist, hwaiting⟩ := h .EMBED_JOBS_QUEUE
    rw [hentry] at hlist
    cases waiting with
    | nil => cases hlist
    | cons first rest =>
        have hsame : item = first ∧ items = rest ∧ ttl = none := by
          simpa [Format.listEntry, and_assoc] using hlist
        obtain ⟨rfl, rfl, rfl⟩ := hsame
        exact ⟨items, rfl, by rw [List.append_assoc]; exact hwaiting⟩
  · have hne : F.key key ≠ F.key .EMBED_JOBS_QUEUE :=
      fun heq => hkey (REDIS_KEYS_injective F.names heq)
    rw [Function.update_of_ne hne]
    have hold := h key
    cases key with
    | EMBED_JOBS_QUEUE => exact absurd rfl hkey
    | _ => exact hold

/-! ### The calls of the service -/

variable {hash : NodeContentOperationBody → String} {request : NodeContent.Request}
  {phase : NodeContent.Phase}

/-- What the command of the call `i` leaves in the table. -/
def Tables.afterCall (T : Tables) (hash : NodeContentOperationBody → String) (i : CallId)
    (request : NodeContent.Request) : NodeContent.Phase → Tables
  | .claim _ =>
      if (T.cache request.cacheKey).isNone then
        T.setCache request.cacheKey (some ⟨request.claimValue hash, i⟩)
      else T
  | .release _ => T.setCache request.cacheKey none
  | .store response => T.setCache request.cacheKey (some ⟨request.responseValue hash response, i⟩)
  | _ => T

/-- The response that a call is about to store has versions of the schema. -/
def storable : NodeContent.Phase → Bool
  | .store response => decide (Storable response)
  | _ => true

/-- The call writes a value of its own. -/
private theorem holds_written (key : CacheKey) (value : NodeContent.CacheValue) (i : CallId)
    (hvalue : ∀ response ∈ cachedResponse value, Storable response) :
    F.Holds (T.setCache key (some ⟨value, i⟩)) taken (.NODE_CONTENT_OPERATION key)
      (some ⟨.string (F.cacheText value), some (cacheTtl value)⟩) := by
  simp only [Format.Holds, Tables.setCache, Function.update_self]
  refine ⟨rfl, fun e he response hresponse => ?_⟩
  obtain rfl := Option.some.inj he
  exact hvalue response hresponse

/-- **A call commands Redis** as the model says. -/
theorem represents_call (h : F.Represents T taken store) (i : CallId)
    (hstorable : storable phase = true)
    (hcommand : F.callCommand hash request phase = some command) :
    F.Represents (T.afterCall hash i request phase) taken (execute F.order store command).1 := by
  have hkey : ∀ command, F.callCommand hash request phase = some command →
      command.key = F.key (.NODE_CONTENT_OPERATION request.cacheKey) := by
    intro command hcommand
    cases phase <;> cases request <;> cases hcommand <;> rfl
  cases phase with
  | get version =>
      cases hcommand
      exact represents_get h _
  | claim version =>
      have hclaim : command = .set (F.key (.NODE_CONTENT_OPERATION request.cacheKey))
          (F.cacheText (request.claimValue hash)) (cacheTtl (request.claimValue hash)) true := by
        cases request <;> cases hcommand <;> rfl
      have hentry := (h (.NODE_CONTENT_OPERATION request.cacheKey)).1
      cases hcache : T.cache request.cacheKey with
      | some e =>
          refine h.execute (hkey _ hcommand) ?_ ?_
          · intro key entry _ hold
            simpa [Tables.afterCall, hcache] using hold
          · have hnx :
                (command.run F.order (store (F.key (.NODE_CONTENT_OPERATION request.cacheKey)))).1 =
                store (F.key (.NODE_CONTENT_OPERATION request.cacheKey)) := by
              rw [hclaim, hentry, hcache]
              rfl
            rw [hnx]
            simpa [Tables.afterCall, hcache] using h (.NODE_CONTENT_OPERATION request.cacheKey)
      | none =>
          refine h.execute (hkey _ hcommand) ?_ ?_
          · intro key entry hne hold
            simp only [Tables.afterCall, hcache, Option.isNone_none, if_true]
            exact holds_setCache key entry hne hold
          · rw [hclaim, hentry, hcache]
            simp only [Tables.afterCall, hcache, Option.isNone_none, if_true]
            refine holds_written _ _ _ fun response hresponse => ?_
            cases request <;> cases hresponse
  | release error =>
      cases hcommand
      refine h.execute (hkey _ rfl) (fun key entry => holds_setCache key entry) ?_
      simp [Format.Holds, Tables.afterCall, Tables.setCache, Command.run]
  | store response =>
      cases hcommand
      refine h.execute (hkey _ rfl) (fun key entry => holds_setCache key entry) ?_
      have hwritten : F.Holds (T.setCache request.cacheKey
          (some ⟨request.responseValue hash response, i⟩)) taken
            (.NODE_CONTENT_OPERATION request.cacheKey) _ :=
        holds_written request.cacheKey (request.responseValue hash response) i ?_
      · have httl : cacheTtl (request.responseValue hash response) = 86400 := by
          cases request <;> rfl
        rw [httl] at hwritten
        exact hwritten
      · intro response' hresponse'
        cases request with
        | patch => cases hresponse'
        | operation =>
            cases hresponse'
            exact of_decide_eq_true hstorable
  | _ => cases hcommand

/-! ### Keys that lapse -/

/-- The state of a node has expired. -/
theorem represents_lapse_doc (h : F.Represents T taken store) (nodeId : NodeId) :
    F.Represents (T.setDoc nodeId none) taken
      (Function.update store (F.key (.YJS_DOC nodeId)) none) :=
  h.lapse (fun key entry => holds_setDoc key entry) (by simp [Format.Holds, Tables.setDoc])

/-- The awareness of a workspace has expired. -/
theorem represents_lapse_awareness (h : F.Represents T taken store) (workspaceId : WorkspaceId) :
    F.Represents (T.setAwareness workspaceId none) taken
      (Function.update store (F.key (.YJS_WS_AWARENESS workspaceId)) none) :=
  h.lapse (fun key entry => holds_setAwareness key entry)
    (by simp [Format.Holds, Tables.setAwareness])

/-- The hash of a workspace has expired, and its members are gone. -/
theorem represents_lapse_presence (h : F.Represents T taken store) (workspaceId : WorkspaceId) :
    F.Represents (T.setPresence workspaceId []) taken
      (Function.update store (F.key (.WS_PRESENCE workspaceId)) none) :=
  h.lapse (fun key entry => holds_setPresence key entry)
    ⟨none, by simp [Tables.setPresence, Command.hashEntry]⟩

/-- The entry of an operation has expired. -/
theorem represents_lapse_cache (h : F.Represents T taken store) (cacheKey : CacheKey) :
    F.Represents (T.setCache cacheKey none) taken
      (Function.update store (F.key (.NODE_CONTENT_OPERATION cacheKey)) none) :=
  h.lapse (fun key entry => holds_setCache key entry) (by simp [Format.Holds, Tables.setCache])

/-! ### Where a call goes on -/

/-- **The text under a key is read** as the value that was written. -/
theorem withCachedRaw_cacheText (version : ℕ) (value : NodeContent.CacheValue)
    (hvalue : ∀ response ∈ cachedResponse value, Storable response) :
    F.withCachedRaw hash request version (F.cacheText value) =
      request.withCached hash version (some value) := by
  cases request with
  | patch => rfl
  | operation userId workspaceId nodeId idempotencyKey body =>
      have hread : readJson F.numeral (F.cacheText value) = some (cacheJson F.names value) :=
        readJson_jsonText (printed_cacheJson F.numeral_repr F.names hvalue)
      cases value with
      | inProgress requestHash =>
          simp only [Format.withCachedRaw, hread, cacheJson, NodeContent.Request.withCached,
            NodeContent.CacheValue.requestHash]
          by_cases hhash : requestHash = hash body <;>
            simp [Json.get, Format.strictEq, hhash]
      | applied =>
          simp [Format.withCachedRaw, hread, cacheJson, NodeContent.Request.withCached,
            NodeContent.CacheValue.requestHash, Json.get, Format.strictEq]
      | response requestHash response =>
          have hresponse := readResponse_responseJson F.names response
          have hobject : F.falsy (responseJson F.names response) = false := rfl
          simp only [Format.withCachedRaw, hread, cacheJson, NodeContent.Request.withCached,
            NodeContent.CacheValue.requestHash]
          by_cases hhash : requestHash = hash body <;>
            simp [Json.get, Format.strictEq, hhash, hresponse, hobject]

/-- Where the call goes on by the table. -/
def Tables.nextPhase (T : Tables) (hash : NodeContentOperationBody → String)
    (request : NodeContent.Request) : NodeContent.Phase → NodeContent.Phase
  | .get version =>
      request.withCached hash version ((T.cache request.cacheKey).map NodeContent.Entry.value)
  | .claim version =>
      if (T.cache request.cacheKey).isNone then .appendMarkdown version else request.unclaimed
  | .release error => request.released error
  | .store response => .returned (.ok (some response))
  | phase => phase

/-- **The call goes on** as it would by the table. -/
theorem resume_call (h : F.Represents T taken store)
    (hcommand : F.callCommand hash request phase = some command) :
    F.resumeCall hash request phase (some (execute F.order store command).2) =
      T.nextPhase hash request phase := by
  obtain ⟨hentry, hvalues⟩ := h (.NODE_CONTENT_OPERATION request.cacheKey)
  cases phase with
  | get version =>
      cases hcommand
      rw [Library.Redis.answer_execute, Command.key, hentry, Tables.nextPhase]
      cases hcache : T.cache request.cacheKey with
      | none => rfl
      | some e =>
          exact withCachedRaw_cacheText version e.value fun response hresponse =>
            hvalues e hcache response hresponse
  | claim version =>
      have hanswer : (execute F.order store command).2 =
          if (T.cache request.cacheKey).isNone then .ok else .nil := by
        cases request <;> cases hcommand <;>
          (rw [Library.Redis.answer_execute, Command.key, hentry]
           cases T.cache _ <;> rfl)
      rw [hanswer, Tables.nextPhase]
      split <;> rfl
  | release error =>
      cases hcommand
      rfl
  | store response =>
      cases hcommand
      rfl
  | _ => cases hcommand

/-- A call that is told of a failure. -/
theorem resumeCall_none : F.resumeCall hash request phase none = .returned (.error .redis) := by
  cases phase <;> rfl

/-- The reply to a call, by the table. -/
theorem redisReply_of_callCommand {x : NodeContent.State} {i : CallId} {call : NodeContent.Call}
    (reply : DocManager.Reply) (hcall : x.calls i = some call)
    (hcommand : F.callCommand hash call.request call.phase = some command) :
    (T.intoService x).redisReply hash i reply = some
      ((if reply.executed then T.afterCall hash i call.request call.phase else T).intoService
        (x.setPhase i call (if reply = .ok then T.nextPhase hash call.request call.phase
          else .returned (.error .redis)))) := by
  obtain ⟨request, phase⟩ := call
  have hcall' : (T.intoService x).calls i = some ⟨request, phase⟩ := hcall
  have hcache : (T.intoService x).cache = T.cache := rfl
  simp only [NodeContent.State.redisReply, hcall']
  cases phase with
  | get version => cases reply <;> rfl
  | claim version =>
      simp only [hcache, Tables.afterCall, Tables.nextPhase]
      cases (T.cache request.cacheKey).isNone <;> cases reply <;> rfl
  | release error => cases reply <;> rfl
  | store response => cases reply <;> rfl
  | _ => cases hcommand

end AideepWebsocket.Redis
