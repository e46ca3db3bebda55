import AideepWebsocket.Redis.Services

/-!
# EventBusSubscriber

The API server publishes what it does on a channel of Redis, as the JSON of an envelope:
events of a workspace, updates of a document, and commands that change the body of a node.
`handleMessage` is called with the text of whatever arrives there.  It must not throw, and
it ignores what it does not know.

* `EventBusEnvelope` — the contract between the two servers, and its JSON;
* `handleMessage` — what is done with a text: one of three calls, or a line in the log;
* `handleMessage_publish` — **the contract holds**: what the API server publishes arrives
  as it was meant, whatever else the envelope and the event carry.

An event of a workspace is passed on as a whole; of its fields only those are looked at
that `WsEvent` has.
-/

namespace AideepWebsocket.EventBus

open Library
open Library.Json (printed_nil printed_null printed_string printed_string_cons)
open Gateway (WsEvent WsEventType)
open NodeContent (NodeBodyPatchPayload)
open Redis (Format Naming fromBase64 base64 fromBase64_base64 jsonText readJson nullable)

/-! ### The contract -/

/-- `EVENT_BUS_CONTRACT_VERSION`. -/
def EVENT_BUS_CONTRACT_VERSION : ℕ := 1

/-- The `type` of an event. -/
def typeName : WsEventType → String
  | .NODE_MOVE => "NODE_MOVE"
  | .NODE_CREATE => "NODE_CREATE"
  | .NODE_DELETE => "NODE_DELETE"
  | .NODE_UPDATE => "NODE_UPDATE"
  | .EDGE_CREATE => "EDGE_CREATE"
  | .EDGE_DELETED => "EDGE_DELETED"
  | .EDGE_UPDATE => "EDGE_UPDATE"
  | .other name => name

def typeOfName (name : String) : WsEventType :=
  if name = "NODE_MOVE" then .NODE_MOVE
  else if name = "NODE_CREATE" then .NODE_CREATE
  else if name = "NODE_DELETE" then .NODE_DELETE
  else if name = "NODE_UPDATE" then .NODE_UPDATE
  else if name = "EDGE_CREATE" then .EDGE_CREATE
  else if name = "EDGE_DELETED" then .EDGE_DELETED
  else if name = "EDGE_UPDATE" then .EDGE_UPDATE
  else .other name

/-- An event of a workspace: the fields that are looked at, and the `rest`.  The event of a
deleted node names the node. -/
structure WorkspaceEvent where
  type : WsEventType
  workspaceId : WorkspaceId
  userId : Option UserId
  nodeId : Option NodeId
  rest : List (String × Json)
  named : typeOfName (typeName type) = type
  deleted : type = .NODE_DELETE → nodeId.isSome = true

inductive Payload
  | WORKSPACE_EVENT (event : WorkspaceEvent)
  | YJS_UPDATE (nodeId : NodeId) (update : YDoc)
  | NODE_BODY_PATCH (payload : NodeBodyPatchPayload)

/-- `EventBusEnvelope`. -/
structure EventBusEnvelope where
  messageId : String
  publishedAt : String
  origin : String
  payload : Payload

variable (F : Format)

namespace WorkspaceEvent

/-- The fields that are looked at. -/
def fields (event : WorkspaceEvent) : List (String × Json) :=
  [("type", .string (typeName event.type)),
      ("workspaceId", .string (F.names.workspace.write event.workspaceId))] ++
    (event.userId.toList.map fun userId => ("userId", .string (F.names.user.write userId))) ++
    (event.nodeId.toList.map fun nodeId => ("nodeId", .string (F.names.node.write nodeId)))

/-- What `broadcast` looks at; nobody looks at the node of an event that has none. -/
def wsEvent (event : WorkspaceEvent) : WsEvent :=
  ⟨event.type, event.workspaceId, event.userId, event.nodeId.getD 0⟩

end WorkspaceEvent

namespace Payload

/-- `kind`. -/
def kind : Payload → String
  | WORKSPACE_EVENT _ => "WORKSPACE_EVENT"
  | YJS_UPDATE .. => "YJS_UPDATE"
  | NODE_BODY_PATCH _ => "NODE_BODY_PATCH"

def json : Payload → Json
  | WORKSPACE_EVENT event => .object (event.fields F ++ event.rest)
  | YJS_UPDATE nodeId update =>
      .object [("nodeId", .string (F.names.node.write nodeId)),
        ("updateBase64", .string (base64 (F.yjs.write update)))]
  | NODE_BODY_PATCH payload =>
      .object [("workspaceId", .string (F.names.workspace.write payload.workspaceId)),
        ("nodeId", .string (F.names.node.write payload.nodeId)),
        ("markdown", nullable payload.markdown),
        ("actorId", .string (F.names.user.write payload.actorId)),
        ("commandEventId", nullable payload.commandEventId)]

end Payload

def EventBusEnvelope.json (envelope : EventBusEnvelope) : Json :=
  .object [("v", .number EVENT_BUS_CONTRACT_VERSION.repr),
    ("kind", .string envelope.payload.kind), ("messageId", .string envelope.messageId),
    ("publishedAt", .string envelope.publishedAt), ("origin", .string envelope.origin),
    ("payload", envelope.payload.json F)]

/-- The message of an envelope. -/
def publish (envelope : EventBusEnvelope) : String := jsonText (envelope.json F)

/-! ### The subscriber -/

/-- What is done with a message. -/
inductive Handled
  | broadcast (event : WsEvent)
  | broadcastYjsUpdate (nodeId : NodeId) (update : YDoc)
  | applyNodeBodyPatch (payload : NodeBodyPatchPayload)
  /-- A warning: the version or the kind is unknown. -/
  | unknown
  /-- Something has thrown, and is logged. -/
  | failed
  /-- A payload with values that the API server does not write. -/
  | illFormed
  deriving DecidableEq

/-- A field that may be missing, or `null`. -/
def readOptional {α : Type} (codec : Codec α String) : Option Json → Option (Option α)
  | none | some .null => some none
  | some (.string text) => (codec.read text).map some
  | some _ => none

/-- A text that may be missing, or `null`. -/
def readText : Option Json → Option (Option String)
  | none | some .null => some none
  | some (.string text) => some (some text)
  | some _ => none

/-- An identifier. -/
def readId {α : Type} (codec : Codec α String) : Option Json → Option α
  | some (.string text) => codec.read text
  | _ => none

/-- What `broadcast` looks at; an empty `userId` is falsy. -/
def readWsEvent (payload : Json) : Option WsEvent :=
  match payload.get "type", readId F.names.workspace (payload.get "workspaceId"),
      (if Format.strictEq (payload.get "userId") "" then some none
        else readOptional F.names.user (payload.get "userId")),
      readOptional F.names.node (payload.get "nodeId") with
  | some (.string name), some workspaceId, some userId, some nodeId =>
      if typeOfName name = .NODE_DELETE && nodeId.isNone then none
      else some ⟨typeOfName name, workspaceId, userId, nodeId.getD 0⟩
  | _, _, _, _ => none

def readYjsUpdate (payload : Json) : Option (NodeId × YDoc) :=
  match readId F.names.node (payload.get "nodeId"), payload.get "updateBase64" with
  | some nodeId, some (.string text) => (F.yjs.read (fromBase64 text)).map fun u => (nodeId, u)
  | _, _ => none

def readNodeBodyPatch (payload : Json) : Option NodeBodyPatchPayload :=
  match readId F.names.workspace (payload.get "workspaceId"),
      readId F.names.node (payload.get "nodeId"), readText (payload.get "markdown"),
      readId F.names.user (payload.get "actorId"), readText (payload.get "commandEventId") with
  | some workspaceId, some nodeId, some markdown, some actorId, some commandEventId =>
      some ⟨workspaceId, nodeId, markdown, actorId, commandEventId⟩
  | _, _, _, _, _ => none

/-- The fields of `undefined` and of `null` cannot be looked at. -/
def withPayload (payload : Option Json) (handle : Json → Handled) : Handled :=
  match payload with
  | none | some .null => .failed
  | some payload => handle payload

/-- `envelope?.v === EVENT_BUS_CONTRACT_VERSION`. -/
def isVersion : Option Json → Bool
  | some (.number literal) => F.numeral literal = EVENT_BUS_CONTRACT_VERSION.repr
  | _ => false

/-- `handleMessage`. -/
def handleMessage (message : String) : Handled :=
  match readJson F.numeral message with
  | none => .failed
  | some envelope =>
      if isVersion F (envelope.get "v") then
        match envelope.get "kind" with
        | some (.string "WORKSPACE_EVENT") =>
            withPayload (envelope.get "payload") fun payload =>
              ((readWsEvent F payload).map .broadcast).getD .illFormed
        | some (.string "YJS_UPDATE") =>
            withPayload (envelope.get "payload") fun payload =>
              ((readYjsUpdate F payload).map fun p => .broadcastYjsUpdate p.1 p.2).getD .illFormed
        | some (.string "NODE_BODY_PATCH") =>
            withPayload (envelope.get "payload") fun payload =>
              ((readNodeBodyPatch F payload).map .applyNodeBodyPatch).getD .illFormed
        | _ => .unknown
      else .unknown

/-! ### The contract holds -/

variable {F}

/-- The names of the fields that are looked at. -/
def looked : List String := ["type", "workspaceId", "userId", "nodeId"]

/-- A field is looked for in the rest if it is not among the fields before. -/
private theorem get_append (fields rest : List (String × Json)) (name : String) :
    (Json.object (fields ++ rest)).get name =
      ((Json.object fields).get name).or ((Json.object rest).get name) := by
  simp only [Json.get, List.find?_append]
  cases fields.find? fun field => field.1 = name <;> rfl

private theorem get_rest {rest : List (String × Json)}
    (hrest : ∀ field ∈ rest, field.1 ∉ looked) (name : String) (hname : name ∈ looked) :
    (Json.object rest).get name = none := by
  have hnone : rest.find? (fun field => field.1 = name) = none := by
    rw [List.find?_eq_none]
    intro field hfield heq
    exact hrest field hfield (of_decide_eq_true heq ▸ hname)
  rw [Json.get, hnone]
  rfl

private theorem readWsEvent_json (F : Format) (event : WorkspaceEvent)
    (hrest : ∀ field ∈ event.rest, field.1 ∉ looked) :
    readWsEvent F (.object (event.fields F ++ event.rest)) = some event.wsEvent := by
  obtain ⟨type, workspaceId, userId, nodeId, rest, hnamed, hdeleted⟩ := event
  have hempty (userId : UserId) : F.names.user.write userId ≠ "" := F.names.user_ne_empty userId
  unfold readWsEvent
  simp only [get_append, get_rest hrest "type" (by decide),
    get_rest hrest "workspaceId" (by decide), get_rest hrest "userId" (by decide),
    get_rest hrest "nodeId" (by decide), Option.or_none]
  have hdelete (hnone : nodeId = none) : type ≠ .NODE_DELETE :=
    fun heq => by simpa [hnone] using hdeleted heq
  cases userId <;> cases nodeId <;>
    simp [WorkspaceEvent.fields, WorkspaceEvent.wsEvent, Json.get, readId, readOptional,
      Format.strictEq, F.names.workspace.read_write, F.names.user.read_write,
      F.names.node.read_write, hnamed, hempty, hdelete]

private theorem readYjsUpdate_json (nodeId : NodeId) (update : YDoc) :
    readYjsUpdate F ((Payload.YJS_UPDATE nodeId update).json F) = some (nodeId, update) := by
  simp [readYjsUpdate, Payload.json, Json.get, readId, F.names.node.read_write,
    fromBase64_base64, F.yjs.read_write]

private theorem readNodeBodyPatch_json (payload : NodeBodyPatchPayload) :
    readNodeBodyPatch F ((Payload.NODE_BODY_PATCH payload).json F) = some payload := by
  obtain ⟨workspaceId, nodeId, markdown, actorId, commandEventId⟩ := payload
  cases markdown <;> cases commandEventId <;>
    simp [readNodeBodyPatch, Payload.json, Json.get, readId, readText, nullable,
      F.names.workspace.read_write, F.names.node.read_write, F.names.user.read_write]

/-- What is to be done with a payload. -/
def Payload.handled : Payload → Handled
  | .WORKSPACE_EVENT event => .broadcast event.wsEvent
  | .YJS_UPDATE nodeId update => .broadcastYjsUpdate nodeId update
  | .NODE_BODY_PATCH payload => .applyNodeBodyPatch payload

/-- The rest of an event is JSON as it is printed, and has names of its own. -/
def Payload.Proper (F : Format) : Payload → Prop
  | .WORKSPACE_EVENT event =>
      (Json.object event.rest).Printed F.numeral ∧ ∀ field ∈ event.rest, field.1 ∉ looked
  | _ => True

private theorem printed_nullable (text : Option String) : (nullable text).Printed F.numeral := by
  cases text with
  | none => exact printed_null
  | some text => exact printed_string text

private theorem printed_payload {payload : Payload} (h : payload.Proper F) :
    (payload.json F).Printed F.numeral := by
  cases payload with
  | WORKSPACE_EVENT event =>
      obtain ⟨type, workspaceId, userId, nodeId, rest, hnamed, hdeleted⟩ := event
      obtain ⟨hprinted, hnames⟩ := h
      have hnot (name : String) (hname : name ∈ looked) : name ∉ rest.map Prod.fst := by
        intro hmem
        obtain ⟨field, hfield, rfl⟩ := List.mem_map.mp hmem
        exact hnames field hfield hname
      have htype := hnot "type" (by decide)
      have hworkspace := hnot "workspaceId" (by decide)
      have huser := hnot "userId" (by decide)
      have hnode := hnot "nodeId" (by decide)
      have hsome : (Json.object ((nodeId.toList.map fun nodeId =>
          ("nodeId", Json.string (F.names.node.write nodeId))) ++ rest)).Printed F.numeral := by
        cases nodeId with
        | none => exact hprinted
        | some nodeId => exact printed_string_cons hnode hprinted
      have hboth : (Json.object ((userId.toList.map fun userId =>
          ("userId", Json.string (F.names.user.write userId))) ++
            ((nodeId.toList.map fun nodeId =>
              ("nodeId", Json.string (F.names.node.write nodeId))) ++ rest))).Printed F.numeral := by
        cases userId with
        | none => exact hsome
        | some userId =>
            refine printed_string_cons ?_ hsome
            cases nodeId <;> simpa using huser
      rw [Payload.json, WorkspaceEvent.fields, List.append_assoc, List.append_assoc]
      refine printed_string_cons ?_ (printed_string_cons ?_ hboth)
      · cases userId <;> cases nodeId <;> simpa using htype
      · cases userId <;> cases nodeId <;> simpa using hworkspace
  | YJS_UPDATE nodeId update =>
      exact printed_string_cons (by simp) (printed_string_cons (by simp) printed_nil)
  | NODE_BODY_PATCH payload =>
      refine printed_string_cons (by simp) (printed_string_cons (by simp) ?_)
      refine Json.printed_object_cons.mpr ⟨by simp, printed_nullable _, ?_⟩
      refine printed_string_cons (by simp) ?_
      exact Json.printed_object_cons.mpr ⟨by simp, printed_nullable _, printed_nil⟩

private theorem printed_envelope (envelope : EventBusEnvelope) (h : envelope.payload.Proper F) :
    (envelope.json F).Printed F.numeral := by
  have hversion : (Json.number EVENT_BUS_CONTRACT_VERSION.repr).Printed F.numeral :=
    Json.printed_repr (F.numeral_repr _ (by decide))
  refine Json.printed_object_cons.mpr ⟨by simp, hversion, ?_⟩
  refine printed_string_cons (by simp) (printed_string_cons (by simp) ?_)
  refine printed_string_cons (by simp) (printed_string_cons (by simp) ?_)
  exact Json.printed_object_cons.mpr ⟨by simp, printed_payload h, printed_nil⟩

/-- **What is published arrives**: the subscriber does with the message of an envelope what
its payload says. -/
theorem handleMessage_publish (envelope : EventBusEnvelope) (h : envelope.payload.Proper F) :
    handleMessage F (publish F envelope) = envelope.payload.handled := by
  have hread : readJson F.numeral (publish F envelope) = some (envelope.json F) :=
    Redis.readJson_jsonText (printed_envelope envelope h)
  have hversion : isVersion F ((envelope.json F).get "v") = true := by
    simp [EventBusEnvelope.json, Json.get, isVersion, EVENT_BUS_CONTRACT_VERSION,
      F.numeral_repr 1 (by decide)]
  have hkind : (envelope.json F).get "kind" = some (.string envelope.payload.kind) := rfl
  have hpayload : (envelope.json F).get "payload" = some (envelope.payload.json F) := rfl
  rw [handleMessage, hread]
  dsimp only
  rw [if_pos hversion, hkind, hpayload]
  cases hp : envelope.payload with
  | WORKSPACE_EVENT event =>
      rw [hp] at h
      have hevent := readWsEvent_json F event h.2
      simp only [Payload.kind, Payload.json, withPayload, hevent]
      rfl
  | YJS_UPDATE nodeId update =>
      have hupdate := readYjsUpdate_json (F := F) nodeId update
      simp only [Payload.kind, Payload.json, withPayload] at hupdate ⊢
      rw [hupdate]
      rfl
  | NODE_BODY_PATCH payload =>
      have hpatch := readNodeBodyPatch_json (F := F) payload
      simp only [Payload.kind, Payload.json, withPayload] at hpatch ⊢
      rw [hpatch]
      rfl

/-- A node has been deleted. -/
def nodeDeleted : EventBusEnvelope where
  messageId := "m-1"
  publishedAt := "2026-01-01T00:00:00.000Z"
  origin := "api"
  payload := .WORKSPACE_EVENT {
    type := .NODE_DELETE
    workspaceId := 7
    userId := some 9
    nodeId := some 1
    rest := [("title", .string "a")]
    named := rfl
    deleted := fun _ => rfl }

theorem nodeDeleted_arrives :
    handleMessage Redis.plainFormat (publish Redis.plainFormat nodeDeleted) =
      .broadcast ⟨.NODE_DELETE, 7, some 9, 1⟩ :=
  handleMessage_publish nodeDeleted
    ⟨printed_string_cons (List.not_mem_nil) printed_nil, by decide⟩

end AideepWebsocket.EventBus
