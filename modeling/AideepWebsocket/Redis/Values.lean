import AideepWebsocket.Library.Base64
import AideepWebsocket.Library.JsonParse
import AideepWebsocket.Redis.Keys

/-!
# What is stored under the keys

Redis holds text.  A Yjs document and an awareness state are stored in Base64; a presence
member, an embedding job and the entry of a content operation as JSON.  Each of these
formats is read back as what was written (`readMember_memberJson`, `readResponse_responseJson`,
`readJson_jsonText`), and none of them writes the empty string, which the readers take for
nothing (`base64_eq_empty`).

A version is an `Int` of the schema, so it has 32 bits (`MAX_VERSION`); JavaScript prints
and reads such numbers exactly.
-/

namespace AideepWebsocket.Redis

open Library
open Gateway (Bytes PresenceMember)
open NodeContent (CacheValue NodeContentOperationResponse)

/-! ### Formats -/

/-- `buffer.toString('base64')`. -/
def base64 (data : Bytes) : String := String.ofList (Base64.encode data)

/-- `Buffer.from(text, 'base64')`. -/
def fromBase64 (text : String) : Bytes := Base64.decode text.toList

/-- What is cached is read back. -/
theorem fromBase64_base64 (data : Bytes) : fromBase64 (base64 data) = data := by
  rw [fromBase64, base64, String.toList_ofList, Base64.decode_encode]

/-- Only no bytes are an empty text, which would be read as a miss. -/
theorem base64_eq_empty {data : Bytes} : base64 data = "" ↔ data = [] := by
  rw [← Base64.encode_eq_nil, base64, ← String.toList_inj, String.toList_ofList]
  rfl

/-- `JSON.stringify(value)`. -/
def jsonText (value : Json) : String := String.ofList value.stringify

/-- `JSON.parse(text)`. -/
def readJson (numeral : String → String) (text : String) : Option Json :=
  Json.parse numeral text.toList

/-- What `JSON.stringify` prints is what `JSON.parse` reads. -/
theorem readJson_jsonText {numeral : String → String} {value : Json}
    (h : value.Printed numeral) : readJson numeral (jsonText value) = some value := by
  rw [readJson, jsonText, String.toList_ofList, Json.parse_stringify value h]

/-! ### Presence and embedding jobs -/

/-- A string, or `null`. -/
def nullable : Option String → Json
  | none => .null
  | some text => .string text

/-- A member, as it is written into its field. -/
def memberJson (names : Naming) (member : PresenceMember) : Json :=
  .object [("userId", .string (names.user.write member.userId)),
    ("userName", .string member.userName), ("color", .string member.color),
    ("profile", nullable member.profile)]

/-- `JSON.parse(s) as PresenceMember`. -/
def readMember (names : Naming) (value : Json) : Option PresenceMember :=
  match value.get "userId", value.get "userName", value.get "color", value.get "profile" with
  | some (.string userId), some (.string userName), some (.string color), some profile =>
      match names.user.read userId, profile with
      | some userId, .null => some ⟨userId, userName, color, none⟩
      | some userId, .string profile => some ⟨userId, userName, color, some profile⟩
      | _, _ => none
  | _, _, _, _ => none

/-- A member is read as it was written. -/
theorem readMember_memberJson (names : Naming) (member : PresenceMember) :
    readMember names (memberJson names member) = some member := by
  obtain ⟨userId, userName, color, profile⟩ := member
  cases profile <;> simp [readMember, memberJson, Json.get, nullable, names.user.read_write]

/-- A member has nothing that JSON would print differently. -/
theorem printed_memberJson {numeral : String → String} (names : Naming)
    (member : PresenceMember) : (memberJson names member).Printed numeral := by
  obtain ⟨userId, userName, color, profile⟩ := member
  cases profile <;> exact ⟨by simp [memberJson, nullable, Json.numbers, Json.numbersOfFields],
    by simp [memberJson, nullable, Json.numbers, Json.numbersOfFields],
    by simp [memberJson, nullable, Json.distinct, Json.distinctFields]⟩

/-- A job, as the worker reads it. -/
def embedJobJson (names : Naming) (job : DocManager.EmbedJob) : Json :=
  .object [("nodeId", .string (names.node.write job.nodeId)),
    ("userId", .string (names.user.write job.userId)),
    ("workspaceId", .string (names.workspace.write job.workspaceId))]

/-! ### Content operations -/

/-- The largest `Int` of the schema. -/
def MAX_VERSION : ℕ := 2 ^ 31 - 1

/-- The versions in the response are `Int`s of the schema. -/
def Storable (response : NodeContentOperationResponse) : Prop :=
  response.previousVersion ≤ MAX_VERSION ∧ response.version ≤ MAX_VERSION

instance (response : NodeContentOperationResponse) : Decidable (Storable response) := by
  unfold Storable
  infer_instance

/-- A response, as it is stored. -/
def responseJson (names : Naming) (response : NodeContentOperationResponse) : Json :=
  .object [("operationId", .string (names.operation.write response.operationId)),
    ("nodeId", .string (names.node.write response.nodeId)),
    ("operation", .string "APPEND_MARKDOWN"),
    ("previousVersion", .number response.previousVersion.repr),
    ("version", .number response.version.repr),
    ("updatedAt", .string (names.date.write response.updatedAt)),
    ("duplicate", .bool response.duplicate)]

/-- The natural number that a literal of digits stands for. -/
def natOf (literal : String) : Option ℕ :=
  if literal.toList ≠ [] ∧ literal.toList.all Char.isDigit then
    some (Nat.ofDigitChars 10 literal.toList 0)
  else none

/-- A number is read as it is printed. -/
theorem natOf_repr (n : ℕ) : natOf n.repr = some n := by
  have hdigits : (Nat.toDigits 10 n).all Char.isDigit = true :=
    List.all_eq_true.mpr fun c hc => Nat.isDigit_of_mem_toDigits (by decide) (by decide) hc
  rw [natOf, Nat.toList_repr, if_pos ⟨Nat.toDigits_ne_nil, hdigits⟩,
    Nat.ofDigitChars_ten_toDigits]

/-- `cached.response`, as a response. -/
def readResponse (names : Naming) (value : Json) : Option NodeContentOperationResponse :=
  match value.get "operationId", value.get "nodeId", value.get "operation",
      value.get "previousVersion", value.get "version", value.get "updatedAt",
      value.get "duplicate" with
  | some (.string operationId), some (.string nodeId), some (.string "APPEND_MARKDOWN"),
      some (.number previousVersion), some (.number version), some (.string updatedAt),
      some (.bool duplicate) =>
      match names.operation.read operationId, names.node.read nodeId, natOf previousVersion,
          natOf version, names.date.read updatedAt with
      | some operationId, some nodeId, some previousVersion, some version, some updatedAt =>
          some ⟨operationId, nodeId, .APPEND_MARKDOWN, previousVersion, version, updatedAt,
            duplicate⟩
      | _, _, _, _, _ => none
  | _, _, _, _, _, _, _ => none

/-- A response is read as it was stored. -/
theorem readResponse_responseJson (names : Naming) (response : NodeContentOperationResponse) :
    readResponse names (responseJson names response) = some response := by
  obtain ⟨operationId, nodeId, ⟨⟩, previousVersion, version, updatedAt, duplicate⟩ := response
  simp [readResponse, responseJson, Json.get, names.operation.read_write, names.node.read_write,
    names.date.read_write, natOf_repr]

variable {numeral : String → String}

/-- A response has a version that JavaScript prints as it is. -/
private theorem printed_responseJson (hnumeral : ∀ n ≤ MAX_VERSION, numeral n.repr = n.repr)
    (names : Naming) {response : NodeContentOperationResponse} (h : Storable response) :
    (responseJson names response).Printed numeral := by
  refine Json.printed_string_cons (by simp) (Json.printed_string_cons (by simp)
    (Json.printed_string_cons (by simp) ?_))
  refine Json.printed_object_cons.mpr ⟨by simp, Json.printed_repr (hnumeral _ h.1), ?_⟩
  refine Json.printed_object_cons.mpr ⟨by simp, Json.printed_repr (hnumeral _ h.2), ?_⟩
  refine Json.printed_string_cons (by simp) (Json.printed_object_cons.mpr ⟨by simp, ?_,
    Json.printed_nil⟩)
  exact ⟨by simp [Json.numbers], by simp [Json.numbers], rfl⟩

/-- What is stored under the key of an operation. -/
def cacheJson (names : Naming) : CacheValue → Json
  | .inProgress requestHash =>
      .object [("requestHash", .string requestHash), ("state", .string "IN_PROGRESS")]
  | .response requestHash response =>
      .object [("requestHash", .string requestHash), ("response", responseJson names response)]
  | .applied => .object [("state", .string "APPLIED")]

/-- The response in it, if there is one. -/
def cachedResponse : CacheValue → Option NodeContentOperationResponse
  | .response _ response => some response
  | _ => none

/-- So has whatever is stored under the key of an operation. -/
theorem printed_cacheJson (hnumeral : ∀ n ≤ MAX_VERSION, numeral n.repr = n.repr)
    (names : Naming) {value : CacheValue} (h : ∀ response ∈ cachedResponse value,
      Storable response) : (cacheJson names value).Printed numeral := by
  cases value with
  | response requestHash response =>
      have hresponse := printed_responseJson hnumeral names (h response rfl)
      rw [cacheJson, Json.printed_object_cons, Json.printed_object_cons]
      refine ⟨by simp, ⟨by simp [Json.numbers], by simp [Json.numbers], rfl⟩, by simp, hresponse,
        by simp [Json.numbers, Json.numbersOfFields], by simp [Json.numbers, Json.numbersOfFields],
        rfl⟩
  | _ =>
      exact ⟨by simp [cacheJson, Json.numbers, Json.numbersOfFields],
        by simp [cacheJson, Json.numbers, Json.numbersOfFields],
        by simp [cacheJson, Json.distinct, Json.distinctFields]⟩

end AideepWebsocket.Redis
