import AideepWebsocket.Gateway.Wire
import AideepWebsocket.Library.Redis
import AideepWebsocket.Redis.Values
import Mathlib.Data.Nat.Digits.Defs
import Mathlib.Logic.Equiv.Finset

/-!
# The services over Redis

What the services issue, and what they make of the answers: `PresenceService`,
`YjsWsAwarenessService` and `YjsCrdtService` for the gateway and its manager,
`EmbedQueueService`, and the cache of `NodeContentService`.  Everything here is text.

The rest of the development keeps what these services store in tables of its own
(`Tables`).  A store **represents** the tables if under every key of theirs it holds what
the table says (`Represents`); of keys that others write nothing is said.  A command
touches one key, so it keeps the representation as soon as it does under that key
(`Represents.execute`).
-/

namespace AideepWebsocket.Redis

open Library
open Library.Redis (Answer Command Entry HashOrder Store execute)
open DocManager (Cached EmbedJob NodeRow)
open Gateway (Bytes PresenceMember)
open NodeContent (CacheKey CacheValue NodeContentOperationBody)

/-- How values are written, and the fields of a hash are listed.  An encoded Yjs state is never
empty, and JavaScript prints a version as it has read it. -/
structure Format where
  order : HashOrder
  names : Naming
  yjs : Codec YDoc Bytes
  yjs_ne_nil : ∀ doc, yjs.write doc ≠ []
  numeral : String → String
  numeral_repr : ∀ n ≤ MAX_VERSION, numeral n.repr = n.repr

/-- `WS_PRESENCE_TTL_SEC`. -/
def WS_PRESENCE_TTL_SEC : ℕ := 60 * 60 * 24

/-- `WS_AWARENESS_TTL_SEC`. -/
def WS_AWARENESS_TTL_SEC : ℕ := 30

namespace Format

variable (F : Format)

def key (key : Key) : String := REDIS_KEYS F.names key

/-! ### PresenceService -/

/-- The field of a member in the hash of the workspace. -/
def presenceField (member : PresenceMember) : String × String :=
  (F.names.user.write member.userId, jsonText (memberJson F.names member))

/-- `upsertPresence`, its first command. -/
def upsertPresence (workspaceId : WorkspaceId) (member : PresenceMember) : Command :=
  .hSet (F.key (.WS_PRESENCE workspaceId)) (F.presenceField member).1 (F.presenceField member).2

/-- `upsertPresence`, its second command. -/
def expirePresence (workspaceId : WorkspaceId) : Command :=
  .expire (F.key (.WS_PRESENCE workspaceId)) WS_PRESENCE_TTL_SEC

/-- `removePresence`. -/
def removePresence (workspaceId : WorkspaceId) (userId : UserId) : Command :=
  .hDel (F.key (.WS_PRESENCE workspaceId)) (F.names.user.write userId)

/-- `listPresence`, up to its await. -/
def listPresence (workspaceId : WorkspaceId) : Command :=
  .hGetAll (F.key (.WS_PRESENCE workspaceId))

/-- The member in a field. -/
def presenceMember (field : String × String) : Option PresenceMember :=
  (readJson F.numeral field.2).bind (readMember F.names)

/-- The rest of `listPresence`; one value that is no JSON, and it throws. -/
def presenceMembers (fields : List (String × String)) : Option (List PresenceMember) :=
  fields.mapM F.presenceMember

/-- The members in the order in which Redis lists their fields. -/
def listed (members : List PresenceMember) : List PresenceMember :=
  (F.order.list (members.map F.presenceField)).filterMap F.presenceMember

theorem presenceMember_field (member : PresenceMember) :
    F.presenceMember (F.presenceField member) = some member := by
  simp only [presenceMember, presenceField, readJson_jsonText (printed_memberJson F.names member),
    Option.bind_some, readMember_memberJson]

/-- Nobody is listed twice, left out or made up. -/
theorem listed_perm (members : List PresenceMember) : (F.listed members).Perm members := by
  have hself : (members.map F.presenceField).filterMap F.presenceMember = members := by
    have hread : F.presenceMember ∘ F.presenceField = some := by
      funext member
      rw [Function.comp_apply, presenceMember_field]
    rw [List.filterMap_map, hread, List.filterMap_some]
  have hperm := (F.order.perm (members.map F.presenceField)).filterMap F.presenceMember
  rwa [hself] at hperm

/-- The hash of a workspace is read as its members. -/
theorem presenceMembers_listed (members : List PresenceMember) :
    F.presenceMembers (F.order.list (members.map F.presenceField)) = some (F.listed members) := by
  have hread : ∀ fields : List (String × String),
      (∀ field ∈ fields, field ∈ members.map F.presenceField) →
        F.presenceMembers fields = some (fields.filterMap F.presenceMember) := by
    intro fields hfields
    rw [presenceMembers]
    induction fields with
    | nil => rfl
    | cons field fields ih =>
        rw [List.forall_mem_cons] at hfields
        obtain ⟨member, -, hmember⟩ := List.mem_map.mp hfields.1
        have hfield : F.presenceMember field = some member := by
          rw [← hmember, presenceMember_field]
        rw [List.mapM_cons, hfield, ih hfields.2, List.filterMap_cons_some hfield]
        rfl
  exact hread _ fun field hfield => (F.order.perm _).mem_iff.mp hfield

/-! ### YjsWsAwarenessService -/

/-- `cacheAwareness`. -/
def cacheAwareness (workspaceId : WorkspaceId) (data : Bytes) : Command :=
  .set (F.key (.YJS_WS_AWARENESS workspaceId)) (base64 data) WS_AWARENESS_TTL_SEC false

/-- `getCachedAwareness`, up to its await. -/
def getCachedAwareness (workspaceId : WorkspaceId) : Command :=
  .get (F.key (.YJS_WS_AWARENESS workspaceId))

/-- The command that a suspended handler of the gateway has issued. -/
def gatewayCommand : Gateway.Pending → Option Command
  | .joinGetCachedAwareness workspaceId _ => some (F.getCachedAwareness workspaceId)
  | .joinUpsertPresence workspaceId member => some (F.upsertPresence workspaceId member)
  | .joinExpirePresence workspaceId => some (F.expirePresence workspaceId)
  | .joinListPresence workspaceId | .leaveListPresence workspaceId =>
      some (F.listPresence workspaceId)
  | .leaveRemovePresence workspaceId userId => some (F.removePresence workspaceId userId)
  | .cacheAwareness workspaceId data => some (F.cacheAwareness workspaceId data)
  | _ => none

/-- An output, with the members of a workspace in the order in which Redis lists them. -/
def relisted : Gateway.Output → Gateway.Output
  | .emit recipients (.presenceState workspaceId members) =>
      .emit recipients (.presenceState workspaceId (F.listed members))
  | out => out

/-- What the services make of an answer; an empty text is falsy, and so read as a miss. -/
def gatewayAnswer : Answer → Gateway.Answer
  | .wrongType => .error
  | .nil => .value none
  | .text text => .value (if text = "" then none else some (fromBase64 text))
  | .fields fields =>
      match F.presenceMembers fields with
      | some members => .hash members
      | none => .error
  | .ok | .integer _ => .done

/-! ### YjsCrdtService -/

/-- `loadFromRedis`, up to its await. -/
def loadFromRedis (nodeId : NodeId) : Command := .get (F.key (.YJS_DOC nodeId))

/-- `saveToRedis`. -/
def saveToRedis (nodeId : NodeId) (state : YDoc) : Command :=
  .set (F.key (.YJS_DOC nodeId)) (base64 (F.yjs.write state)) 86400 false

/-- `deleteFromRedis`. -/
def deleteFromRedis (nodeId : NodeId) : Command := .del (F.key (.YJS_DOC nodeId))

/-- Where `loadDoc` goes on from the answer of `loadFromRedis`: an error is caught there,
bytes that are no Yjs state are not. -/
def loadedFromRedis : Answer → DocManager.LoadPhase
  | .text text =>
      if text = "" then .redisAnswered none
      else
        match F.yjs.read (fromBase64 text) with
        | some state => .redisAnswered (some state)
        | none => .rejected .redis
  | _ => .redisAnswered none

/-- `saveToDb` invalidates the synchronised workspace. -/
def invalidateSync (workspaceId : WorkspaceId) : Command :=
  .del (F.key (.WORKSPACE_SYNC workspaceId))

/-- `enqueueEmbedJob`. -/
def enqueueEmbedJob (job : EmbedJob) : Command :=
  .rPush (F.key .EMBED_JOBS_QUEUE) (jsonText (embedJobJson F.names job))

/-! ### NodeContentService -/

variable (hash : NodeContentOperationBody → String)

def cacheText (value : CacheValue) : String := jsonText (cacheJson F.names value)

/-- The command that a suspended call has issued. -/
def callCommand (request : NodeContent.Request) : NodeContent.Phase → Option Command
  | .get _ => some (.get (F.key (.NODE_CONTENT_OPERATION request.cacheKey)))
  | .claim _ =>
      match request with
      | .operation _ _ _ _ body =>
          some (.set (F.key (.NODE_CONTENT_OPERATION request.cacheKey))
            (F.cacheText (.inProgress (hash body))) 60 true)
      | .patch .. =>
          some (.set (F.key (.NODE_CONTENT_OPERATION request.cacheKey))
            (F.cacheText .applied) 86400 true)
  | .release _ => some (.del (F.key (.NODE_CONTENT_OPERATION request.cacheKey)))
  | .store response =>
      some (.set (F.key (.NODE_CONTENT_OPERATION request.cacheKey))
        (F.cacheText (request.responseValue hash response)) 86400 false)
  | _ => none

/-- `value === text`; an absent value is `undefined`. -/
def strictEq (value : Option Json) (text : String) : Bool :=
  match value with
  | some (.string value) => value = text
  | _ => false

/-- A value that counts as `false`. -/
def falsy : Json → Bool
  | .null => true
  | .bool b => !b
  | .number literal => F.numeral literal = "0"
  | .string text => text = ""
  | _ => false

/-- `executeContentOperation` goes on with the text that it has found.  What is no JSON, or
is `null`, makes it throw an error of the language. -/
def withCachedRaw (request : NodeContent.Request) (version : ℕ) (raw : String) :
    NodeContent.Phase :=
  match request with
  | .patch .. => .claim version
  | .operation _ _ _ _ body =>
      match readJson F.numeral raw with
      | none | some .null => .returned (.error .redis)
      | some cached =>
          if !strictEq (cached.get "requestHash") (hash body) then
            .returned (.error (.http 409 (.code "IDEMPOTENCY_KEY_REUSED")))
          else if strictEq (cached.get "state") "IN_PROGRESS" ||
              (cached.get "response").all F.falsy then
            .returned (.error (.http 409 (.code "OPERATION_IN_PROGRESS")))
          else
            match (cached.get "response").bind (readResponse F.names) with
            | some response => .returned (.ok (some { response with duplicate := true }))
            | none => .returned (.error .redis)

/-- Where a call goes on from the answer to its command; `none` is a rejection. -/
def resumeCall (request : NodeContent.Request) (phase : NodeContent.Phase)
    (answer : Option Answer) : NodeContent.Phase :=
  match phase, answer with
  | .get version, some .nil => request.withCached hash version none
  | .get version, some (.text raw) => F.withCachedRaw hash request version raw
  | .claim version, some .ok => .appendMarkdown version
  | .claim _, some .nil => request.unclaimed
  | .release error, some (.integer _) => request.released error
  | .store response, some .ok => .returned (.ok (some response))
  | _, _ => .returned (.error .redis)

end Format

/-! ### Tables -/

/-- What the services have stored, as the rest of the development sees it.  The `nodes` are
not in Redis: they are the rows that `NodeContentService` has looked at last, which a lapse
of one of its keys renews in the model. -/
structure Tables where
  presence : WorkspaceId → List PresenceMember
  awareness : WorkspaceId → Option Bytes
  docs : NodeId → Option Cached
  jobs : List EmbedJob
  cache : CacheKey → Option NodeContent.Entry
  nodes : NodeId → Option NodeRow

/-- How long the entry of an operation lives. -/
def cacheTtl : CacheValue → ℕ
  | .inProgress _ => 60
  | _ => 86400

namespace Format

variable (F : Format)

def awarenessEntry (data : Bytes) : Entry := ⟨.string (base64 data), some WS_AWARENESS_TTL_SEC⟩

def docEntry (cached : Cached) : Entry := ⟨.string (base64 (F.yjs.write cached.state)), some 86400⟩

def jobText (job : EmbedJob) : String := jsonText (embedJobJson F.names job)

/-- A list without items is no entry. -/
def listEntry : List String → Option Entry
  | [] => none
  | items => some ⟨.list items, none⟩

def cacheEntry (value : CacheValue) : Entry := ⟨.string (F.cacheText value), some (cacheTtl value)⟩

/-- What the tables say about the entry of a key.  The worker behind the queue has taken
the jobs in `taken`. -/
def Holds (T : Tables) (taken : List String) : Key → Option Entry → Prop
  | .WS_PRESENCE workspaceId, entry =>
      ∃ ttl, entry = Command.hashEntry ((T.presence workspaceId).map F.presenceField) ttl
  | .YJS_WS_AWARENESS workspaceId, entry => entry = (T.awareness workspaceId).map awarenessEntry
  | .YJS_DOC nodeId, entry => entry = (T.docs nodeId).map F.docEntry
  | .NODE_CONTENT_OPERATION key, entry =>
      entry = (T.cache key).map (fun e => F.cacheEntry e.value) ∧
        ∀ e ∈ T.cache key, ∀ response ∈ cachedResponse e.value, Storable response
  | .EMBED_JOBS_QUEUE, entry =>
      ∃ items, entry = listEntry items ∧ taken ++ items = T.jobs.map F.jobText
  | _, _ => True

/-- Under every key of the services the store holds what the tables say. -/
def Represents (T : Tables) (taken : List String) (store : Store) : Prop :=
  ∀ key, F.Holds T taken key (store (F.key key))

end Format

variable {F : Format} {T T' : Tables} {taken : List String} {store : Store} {command : Command}
  {key : Key}

/-- **A command is about one key**: it keeps the representation if it does so there, and
the tables change nowhere else. -/
theorem Format.Represents.execute (h : F.Represents T taken store) (hkey : command.key = F.key key)
    (hother : ∀ key' entry, key' ≠ key → F.Holds T taken key' entry → F.Holds T' taken key' entry)
    (hself : F.Holds T' taken key (command.run F.order (store (F.key key))).1) :
    F.Represents T' taken (execute F.order store command).1 := by
  intro key'
  by_cases hsame : key' = key
  · subst hsame
    rw [← hkey, Library.Redis.execute_self, hkey]
    exact hself
  · have hne : F.key key' ≠ command.key := by
      rw [hkey]
      exact fun heq => hsame (REDIS_KEYS_injective F.names heq)
    rw [Library.Redis.execute_of_ne hne]
    exact hother key' _ hsame (h key')

/-- A key whose entry lapses is gone from its table. -/
theorem Format.Represents.lapse (h : F.Represents T taken store)
    (hother : ∀ key' entry, key' ≠ key → F.Holds T taken key' entry → F.Holds T' taken key' entry)
    (hself : F.Holds T' taken key none) :
    F.Represents T' taken (Function.update store (F.key key) none) := by
  intro key'
  by_cases hsame : key' = key
  · subst hsame
    rw [Function.update_self]
    exact hself
  · have hne : F.key key' ≠ F.key key := fun heq => hsame (REDIS_KEYS_injective F.names heq)
    rw [Function.update_of_ne hne]
    exact hother key' _ hsame (h key')

/-! ### A format

Identifiers are written in decimals, and a document as the number that encodes it. -/

/-- Natural numbers in decimals. -/
def decimal : Codec ℕ String := ⟨Nat.repr, natOf, natOf_repr⟩

private theorem colon_decimal (n : ℕ) : ':' ∉ (decimal.write n).toList := by
  intro h
  have hdigit : Char.isDigit ':' = true := Nat.isDigit_of_mem_toDigits (b := 10) (n := n)
    (by decide) (by decide) (by rw [← Nat.toList_repr]; exact h)
  cases hdigit

def plainNaming : Naming where
  node := decimal
  workspace := decimal
  user := decimal
  operation := decimal
  date := decimal
  node_colon := colon_decimal
  workspace_colon := colon_decimal
  user_split h := decimal.write_injective
    (String.toList_inj.mp (append_cons_inj (colon_decimal _) (colon_decimal _) h).1)
  user_ne_empty _ := Nat.repr_ne_empty

/-- The bytes of the number that encodes a document, behind one that says nothing. -/
def plainYjs : Codec YDoc Bytes where
  write doc :=
    0 :: (Nat.digits 256 (Encodable.encode (doc.structs, doc.deletes))).map UInt8.ofNat
  read data := (Encodable.decode (Nat.ofDigits 256 (data.tail.map UInt8.toNat))).map
    fun p : Finset StructId × Finset StructId => ⟨p.1, p.2⟩
  read_write doc := by
    have hdigits : ((Nat.digits 256 (Encodable.encode (doc.structs, doc.deletes))).map
        UInt8.ofNat).map UInt8.toNat =
          Nat.digits 256 (Encodable.encode (doc.structs, doc.deletes)) := by
      rw [List.map_map]
      refine (List.map_congr_left fun n hn => ?_).trans (List.map_id _)
      exact UInt8.toNat_ofNat_of_lt' (Nat.digits_lt_base (by decide) hn)
    rw [List.tail_cons, hdigits, Nat.ofDigits_digits, Encodable.encodek]
    rfl

def plainFormat : Format where
  order := .set
  names := plainNaming
  yjs := plainYjs
  yjs_ne_nil _ := List.cons_ne_nil _ _
  numeral literal := literal
  numeral_repr _ _ := rfl

end AideepWebsocket.Redis
