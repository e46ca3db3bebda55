import AideepWebsocket.Redis.Services

/-!
# What a body may be

The body of a request is read by `express.json`, checked against the decorators of
`NodeContentOperationBody` by the `ValidationPipe`, and freed of everything else.

* `Rule` — the decorators of a property, in the order in which they are written;
* `violations` — what a body violates;
* `Foreign` — the bodies that pass all the same and have none of the types that the
  controller declares: `null` for an optional property, a `source` that is an array, such as
  `[]`, and an `expectedVersion` from `10^21` on;
* `readBody` — the body that the controller is given;
* `accepted_iff` — **what passes and is not foreign is well formed**, and every well-formed
  body can be sent: written as JSON, it is accepted as it was meant.

How `class-validator` counts the characters of a string, and what it says of a violation,
are parameters.  Left out is the order in which a client writes the properties.
-/

namespace AideepWebsocket.Http

open Library
open NodeContent (NodeContentOperationBody NodeContentOperationSource)
open Redis (Format jsonText natOf readJson)

/-! ### Decorators -/

/-- A decorator that checks a value. -/
inductive Decorator
  | IsIn (values : List String)
  | IsString
  | IsNotEmpty
  | MaxLength (max : ℕ)
  | IsInt
  | MinZero
  | IsDefined
  deriving DecidableEq

structure Rule where
  property : String
  /-- `@IsOptional()`: `undefined` and `null` are not checked. -/
  optional : Bool
  decorators : List Decorator

/-- The rules of `NodeContentOperationSourceDto`. -/
def sourceRules : List Rule :=
  [⟨"actorType", false, [.IsIn ["AGENT"]]⟩,
    ⟨"actorId", false, [.IsString, .IsNotEmpty, .MaxLength 100]⟩,
    ⟨"meetingId", true, [.IsString]⟩, ⟨"chunkId", true, [.IsString]⟩]

/-- The rules of `NodeContentOperationBody`; `IsEnum` asks for one of the values. -/
def bodyRules : List Rule :=
  [⟨"operation", false, [.IsIn ["APPEND_MARKDOWN"]]⟩,
    ⟨"markdown", false, [.IsString, .IsNotEmpty, .MaxLength 100000]⟩,
    ⟨"expectedVersion", true, [.IsInt, .MinZero]⟩, ⟨"source", false, [.IsDefined]⟩]

/-- A value that is missing or `null`. -/
def isNil : Option Json → Bool
  | none | some .null => true
  | _ => false

def stringOf : Option Json → Option String
  | some (.string text) => some text
  | _ => none

def literalOf : Option Json → Option (List Char)
  | some (.number literal) => some literal.toList
  | _ => none

/-- A number as JavaScript prints it is an integer. -/
def isInteger (literal : List Char) : Bool :=
  if 'e' ∈ literal then '+' ∈ literal else literal.all fun c => c.isDigit || c = '-'

/-- The decorator is content with the value; `length` counts the characters of a string. -/
def Decorator.holds (length : String → ℕ) (value : Option Json) : Decorator → Bool
  | .IsIn values => (stringOf value).any (· ∈ values)
  | .IsString => (stringOf value).isSome
  | .IsNotEmpty => !isNil value && stringOf value ≠ some ""
  | .MaxLength max => (stringOf value).any (length · ≤ max)
  | .IsInt => (literalOf value).any isInteger
  | .MinZero => (literalOf value).any (·.head? ≠ some '-')
  | .IsDefined => !isNil value

/-- A property, with its path, and what it violates. -/
inductive Violation
  | decorator (path : List String) (decorator : Decorator)
  /-- `ValidateNested`, of a value that is neither an object nor an array. -/
  | nested (path : List String)
  deriving DecidableEq

variable (length : String → ℕ)

def Rule.violations (parents : List String) (object : Json) (rule : Rule) : List Violation :=
  let value := object.get rule.property
  if rule.optional && isNil value then []
  else (rule.decorators.filter fun d => !d.holds length value).map
    (.decorator (parents ++ [rule.property]))

mutual

/-- `@ValidateNested()`: the rules of `NodeContentOperationSourceDto`, of an object or of each
item of an array; `null` is not checked. -/
def nestedViolations (path : List String) : Json → List Violation
  | .null => []
  | .object fields => sourceRules.flatMap (Rule.violations length path (.object fields))
  | .array items => itemViolations path 0 items
  | _ => [.nested path]

def itemViolations (path : List String) (i : ℕ) : List Json → List Violation
  | [] => []
  | item :: items =>
      nestedViolations (path ++ [i.repr]) item ++ itemViolations path (i + 1) items

end

/-- What `validate` finds. -/
def violations (body : Json) : List Violation :=
  bodyRules.flatMap (Rule.violations length [] body) ++
    ((body.get "source").map (nestedViolations length ["source"])).getD []

/-! ### The body of the model -/

/-- An optional string; `null` is none. -/
def readOptional : Option Json → Option (Option String)
  | none => some none
  | value => (stringOf value).map some

/-- An optional natural number. -/
def readVersion : Option Json → Option (Option ℕ)
  | none => some none
  | value => ((literalOf value).bind fun literal => natOf (String.ofList literal)).map some

def readSource (source : Json) : Option NodeContentOperationSource := do
  let actorType ← stringOf (source.get "actorType")
  let actorId ← stringOf (source.get "actorId")
  let meetingId ← readOptional (source.get "meetingId")
  let chunkId ← readOptional (source.get "chunkId")
  if actorType = "AGENT" then some ⟨.AGENT, actorId, meetingId, chunkId⟩ else none

/-- The body that the controller is given. -/
def readBody (body : Json) : Option NodeContentOperationBody := do
  let operation ← stringOf (body.get "operation")
  let markdown ← stringOf (body.get "markdown")
  let expectedVersion ← readVersion (body.get "expectedVersion")
  let source ← (body.get "source").bind readSource
  if operation = "APPEND_MARKDOWN" then some ⟨.APPEND_MARKDOWN, markdown, expectedVersion, source⟩
  else none

/-- What has a value in it that the types of `NodeContentOperationBody` do not allow, and that
the decorators let pass. -/
def Foreign (body : Json) : Prop :=
  readVersion (body.get "expectedVersion") = none ∨
    ∃ source, body.get "source" = some source ∧
      ((∃ items, source = .array items) ∨ readOptional (source.get "meetingId") = none ∨
        readOptional (source.get "chunkId") = none)

/-- What the decorators ask of a body. -/
structure Proper (body : NodeContentOperationBody) : Prop where
  markdown : body.markdown ≠ ""
  markdown_le : length body.markdown ≤ 100000
  actorId : body.source.actorId ≠ ""
  actorId_le : length body.source.actorId ≤ 100

/-- A property that may be missing. -/
def optionalField (name : String) (value : Option Json) : List (String × Json) :=
  (value.map fun value => (name, value)).toList

def sourceJson (source : NodeContentOperationSource) : Json :=
  .object ([("actorType", .string "AGENT"), ("actorId", .string source.actorId)] ++
    optionalField "meetingId" (source.meetingId.map .string) ++
    optionalField "chunkId" (source.chunkId.map .string))

def bodyJson (body : NodeContentOperationBody) : Json :=
  .object ([("operation", .string "APPEND_MARKDOWN"), ("markdown", .string body.markdown)] ++
    optionalField "expectedVersion" (body.expectedVersion.map fun n => .number n.repr) ++
    [("source", sourceJson body.source)])

/-! ### Rules -/

variable {length} {body : Json} {b : NodeContentOperationBody} {d : Decorator} {rule : Rule}

/-- A rule finds nothing in what may be missing and is, or if its decorators hold. -/
theorem Rule.violations_eq_nil_iff {parents : List String} {object : Json} :
    rule.violations length parents object = [] ↔
      (rule.optional = true ∧ isNil (object.get rule.property) = true) ∨
        ∀ d ∈ rule.decorators, d.holds length (object.get rule.property) = true := by
  unfold Rule.violations
  dsimp only
  by_cases hnil : (rule.optional && isNil (object.get rule.property)) = true
  · rw [if_pos hnil]
    exact iff_of_true rfl (Or.inl (Bool.and_eq_true_iff.mp hnil))
  · rw [if_neg hnil, List.map_eq_nil_iff, List.filter_eq_nil_iff]
    rw [Bool.and_eq_true] at hnil
    constructor
    · intro h
      exact Or.inr fun d hd => by simpa using h d hd
    · rintro (h | h) d hd
      · exact absurd h hnil
      · simp [h d hd]

/-- What is checked as a string of some length is one. -/
theorem text_of_holds {parents : List String} {object : Json} {property : String} {max : ℕ}
    (h : Rule.violations length parents object
      ⟨property, false, [.IsString, .IsNotEmpty, .MaxLength max]⟩ = []) :
    ∃ text, stringOf (object.get property) = some text ∧ text ≠ "" ∧ length text ≤ max := by
  rcases Rule.violations_eq_nil_iff.mp h with ⟨hfalse, -⟩ | h
  · cases hfalse
  · have hstring := h .IsString (by simp)
    obtain ⟨text, htext⟩ := Option.isSome_iff_exists.mp hstring
    have hnotEmpty := h .IsNotEmpty (by simp)
    have hmax := h (.MaxLength max) (by simp)
    simp only [Decorator.holds, htext, Option.any_some, decide_eq_true_eq] at hmax
    simp only [Decorator.holds, htext, Bool.and_eq_true, decide_eq_true_eq] at hnotEmpty
    exact ⟨text, htext, fun hempty => hnotEmpty.2 (congrArg some hempty), hmax⟩

/-- What is checked to be the one value of an enumeration is. -/
theorem value_of_holds {parents : List String} {object : Json} {property value : String}
    (h : Rule.violations length parents object ⟨property, false, [.IsIn [value]]⟩ = []) :
    stringOf (object.get property) = some value := by
  rcases Rule.violations_eq_nil_iff.mp h with ⟨hfalse, -⟩ | h
  · cases hfalse
  · have hin := h (.IsIn [value]) (by simp)
    simp only [Decorator.holds, Option.any_eq_true, List.mem_singleton, decide_eq_true_eq] at hin
    obtain ⟨text, htext, rfl⟩ := hin
    exact htext

/-! ### What passes -/

private theorem violations_body {rule : Rule} (h : violations length body = [])
    (hrule : rule ∈ bodyRules) : rule.violations length [] body = [] :=
  List.flatMap_eq_nil_iff.mp (List.append_eq_nil_iff.mp h).1 rule hrule

private theorem nested_of_violations {source : Json} (h : violations length body = [])
    (hsource : body.get "source" = some source) :
    nestedViolations length ["source"] source = [] := by
  have hnested := (List.append_eq_nil_iff.mp h).2
  rwa [hsource] at hnested

private theorem violations_source {rule : Rule} {fields : List (String × Json)}
    (h : violations length body = []) (hsource : body.get "source" = some (.object fields))
    (hrule : rule ∈ sourceRules) : rule.violations length ["source"] (.object fields) = [] := by
  exact List.flatMap_eq_nil_iff.mp (nested_of_violations h hsource) rule hrule

private theorem markdown_of_violations (h : violations length body = []) :
    Rule.violations length [] body
      ⟨"markdown", false, [.IsString, .IsNotEmpty, .MaxLength 100000]⟩ = [] :=
  violations_body h (by simp [bodyRules])

private theorem actorId_of_violations {fields : List (String × Json)}
    (h : violations length body = []) (hsource : body.get "source" = some (.object fields)) :
    Rule.violations length ["source"] (.object fields)
      ⟨"actorId", false, [.IsString, .IsNotEmpty, .MaxLength 100]⟩ = [] :=
  violations_source h hsource (by simp [sourceRules])

private theorem readSource_eq_some {value : Json} {source : NodeContentOperationSource}
    (h : readSource value = some source) :
    ∃ fields, value = .object fields ∧ stringOf (value.get "actorId") = some source.actorId := by
  simp only [readSource, Option.bind_eq_bind, Option.bind_eq_some_iff] at h
  obtain ⟨actorType, hactorType, actorId, hactorId, meetingId, -, chunkId, -, h⟩ := h
  split at h
  · cases h
    cases value with
    | object fields => exact ⟨fields, rfl, hactorId⟩
    | _ => cases hactorType
  · cases h

private theorem readBody_eq_some (h : readBody body = some b) :
    stringOf (body.get "markdown") = some b.markdown ∧
      ∃ value, body.get "source" = some value ∧ readSource value = some b.source := by
  simp only [readBody, Option.bind_eq_bind, Option.bind_eq_some_iff] at h
  obtain ⟨operation, -, markdown, hmarkdown, version, -, source, ⟨value, hvalue, hsource⟩, h⟩ := h
  split at h
  · cases h
    exact ⟨hmarkdown, value, hvalue, hsource⟩
  · cases h

/-- **What passes is well formed.** -/
theorem proper_of_readBody (h : violations length body = []) (hb : readBody body = some b) :
    Proper length b := by
  obtain ⟨hmarkdown, value, hvalue, hsource⟩ := readBody_eq_some hb
  obtain ⟨fields, rfl, hactorId⟩ := readSource_eq_some hsource
  obtain ⟨text, htext, hne, hle⟩ := text_of_holds (markdown_of_violations h)
  obtain rfl : text = b.markdown := Option.some.inj (htext.symm.trans hmarkdown)
  obtain ⟨actor, hactor, hactorNe, hactorLe⟩ := text_of_holds (actorId_of_violations h hvalue)
  obtain rfl : actor = b.source.actorId := Option.some.inj (hactor.symm.trans hactorId)
  exact ⟨hne, hle, hactorNe, hactorLe⟩

/-- A `source` that passes is an object, or an array. -/
private theorem source_of_violations (h : violations length body = []) :
    ∃ value, body.get "source" = some value ∧
      ((∃ fields, value = .object fields) ∨ ∃ items, value = .array items) := by
  have hrule : Rule.violations length [] body ⟨"source", false, [.IsDefined]⟩ = [] :=
    violations_body h (by simp [bodyRules])
  rcases Rule.violations_eq_nil_iff.mp hrule with ⟨hfalse, -⟩ | hdefined
  · cases hfalse
  · have hnotNil := hdefined .IsDefined (by simp)
    cases hsource : body.get "source" with
    | none =>
        rw [hsource] at hnotNil
        cases hnotNil
    | some value =>
        have hnested := nested_of_violations h hsource
        rw [hsource] at hnotNil
        cases value with
        | object fields => exact ⟨_, rfl, Or.inl ⟨fields, rfl⟩⟩
        | array items => exact ⟨_, rfl, Or.inr ⟨items, rfl⟩⟩
        | null => cases hnotNil
        | bool _ => cases hnested
        | number _ => cases hnested
        | string _ => cases hnested

/-- What passes and is not foreign is a body of the model. -/
theorem isSome_readBody (h : violations length body = []) (hforeign : ¬ Foreign body) :
    (readBody body).isSome = true := by
  obtain ⟨hversion, hsource⟩ := not_or.mp hforeign
  obtain ⟨version, hversion⟩ := Option.ne_none_iff_exists'.mp hversion
  obtain ⟨value, hvalue, ⟨fields, rfl⟩ | ⟨items, rfl⟩⟩ := source_of_violations h
  · have hoptional : readOptional ((Json.object fields).get "meetingId") ≠ none ∧
        readOptional ((Json.object fields).get "chunkId") ≠ none :=
      ⟨fun hnone => hsource ⟨_, hvalue, Or.inr (Or.inl hnone)⟩,
        fun hnone => hsource ⟨_, hvalue, Or.inr (Or.inr hnone)⟩⟩
    obtain ⟨meetingId, hmeetingId⟩ := Option.ne_none_iff_exists'.mp hoptional.1
    obtain ⟨chunkId, hchunkId⟩ := Option.ne_none_iff_exists'.mp hoptional.2
    have hoperation : stringOf (body.get "operation") = some "APPEND_MARKDOWN" :=
      value_of_holds (violations_body h (by simp [bodyRules]))
    have hactorType : stringOf ((Json.object fields).get "actorType") = some "AGENT" :=
      value_of_holds (violations_source h hvalue (by simp [sourceRules]))
    obtain ⟨markdown, hmarkdown, -⟩ := text_of_holds (markdown_of_violations h)
    obtain ⟨actorId, hactorId, -⟩ := text_of_holds (actorId_of_violations h hvalue)
    have hread : readSource (.object fields) = some ⟨.AGENT, actorId, meetingId, chunkId⟩ := by
      rw [readSource, hactorType, hactorId, hmeetingId, hchunkId]
      rfl
    rw [readBody, hoperation, hmarkdown, hversion, hvalue]
    show (Option.bind (some _) fun _ => _).isSome = true
    simp [hread]
  · exact absurd ⟨_, hvalue, Or.inl ⟨items, rfl⟩⟩ hsource

private theorem readSource_of_foreign {source : Json}
    (h : (∃ items, source = .array items) ∨ readOptional (source.get "meetingId") = none ∨
      readOptional (source.get "chunkId") = none) : readSource source = none := by
  rw [Option.eq_none_iff_forall_ne_some]
  intro read hread
  simp only [readSource, Option.bind_eq_bind, Option.bind_eq_some_iff] at hread
  obtain ⟨actorType, hactorType, actorId, -, meetingId, hmeetingId, chunkId, hchunkId, -⟩ := hread
  rcases h with ⟨items, rfl⟩ | hnone | hnone
  · cases hactorType
  · cases hmeetingId.symm.trans hnone
  · cases hchunkId.symm.trans hnone

/-- A foreign body is none of the model. -/
theorem readBody_of_foreign (h : Foreign body) : readBody body = none := by
  rw [Option.eq_none_iff_forall_ne_some]
  intro b hb
  simp only [readBody, Option.bind_eq_bind, Option.bind_eq_some_iff] at hb
  obtain ⟨operation, -, markdown, -, version, hversion, source, ⟨value, hvalue, hsource⟩, -⟩ := hb
  rcases h with hnone | ⟨value', hvalue', hforeign⟩
  · cases hversion.symm.trans hnone
  · obtain rfl : value' = value := Option.some.inj (hvalue'.symm.trans hvalue)
    cases hsource.symm.trans (readSource_of_foreign hforeign)

/-- What passes is a body of the model, or foreign. -/
theorem isSome_readBody_iff (h : violations length body = []) :
    (readBody body).isSome = true ↔ ¬ Foreign body := by
  refine ⟨fun hsome hforeign => ?_, isSome_readBody h⟩
  rw [readBody_of_foreign hforeign] at hsome
  cases hsome

private theorem items_of_itemViolations {path : List String} {items : List Json} {i : ℕ}
    (h : itemViolations length path i items = []) :
    ∀ item ∈ items, ∃ path', nestedViolations length path' item = [] := by
  induction items generalizing i with
  | nil => exact fun item hitem => (by cases hitem)
  | cons first items ih =>
      obtain ⟨hfirst, hrest⟩ := List.append_eq_nil_iff.mp h
      intro item hitem
      rcases List.mem_cons.mp hitem with rfl | hitem
      · exact ⟨_, hfirst⟩
      · exact ih hrest item hitem

/-- Each item of an array that passes is `null`, an array of such, or an object that violates
no rule. -/
theorem items_of_violations {items : List Json} (h : violations length body = [])
    (hsource : body.get "source" = some (.array items)) :
    ∀ item ∈ items, ∃ path, nestedViolations length path item = [] :=
  items_of_itemViolations (nested_of_violations h hsource)

/-! ### What is well formed -/

private theorem readOptional_string (text : Option String) :
    readOptional (text.map .string) = some text := by
  cases text <;> rfl

private theorem readVersion_number (version : Option ℕ) :
    readVersion (version.map fun n => .number n.repr) = some version := by
  cases version with
  | none => rfl
  | some n =>
      show (natOf (String.ofList n.repr.toList)).map some = some (some n)
      rw [String.ofList_toList, Redis.natOf_repr]
      rfl

/-- The digits of a natural number pass as one. -/
private theorem number_holds (n : ℕ) :
    ∀ d ∈ [Decorator.IsInt, .MinZero], d.holds length (some (.number n.repr)) = true := by
  have hdigits : ∀ c ∈ n.repr.toList, c.isDigit = true := fun c hc =>
    Nat.isDigit_of_mem_toDigits (by decide) (by decide) (Nat.toList_repr ▸ hc)
  have hinteger : isInteger n.repr.toList = true := by
    rw [isInteger, if_neg fun he => absurd (hdigits 'e' he) (by decide), List.all_eq_true]
    intro c hc
    rw [hdigits c hc, Bool.true_or]
  have hsign : n.repr.toList.head? ≠ some '-' := fun hhead =>
    absurd (hdigits '-' (List.mem_of_head? hhead)) (by decide)
  intro d hd
  rcases List.mem_cons.mp hd with rfl | hd
  · exact hinteger
  · obtain rfl := List.mem_singleton.mp hd
    simpa [Decorator.holds, literalOf] using hsign

private theorem get_bodyJson (b : NodeContentOperationBody) :
    (bodyJson b).get "operation" = some (.string "APPEND_MARKDOWN") ∧
      (bodyJson b).get "markdown" = some (.string b.markdown) ∧
      (bodyJson b).get "expectedVersion" = (b.expectedVersion.map fun n => .number n.repr) ∧
      (bodyJson b).get "source" = some (sourceJson b.source) := by
  obtain ⟨operation, markdown, version, source⟩ := b
  cases version <;> exact ⟨rfl, rfl, rfl, rfl⟩

private theorem get_sourceJson (source : NodeContentOperationSource) :
    (sourceJson source).get "actorType" = some (.string "AGENT") ∧
      (sourceJson source).get "actorId" = some (.string source.actorId) ∧
      (sourceJson source).get "meetingId" = source.meetingId.map .string ∧
      (sourceJson source).get "chunkId" = source.chunkId.map .string := by
  obtain ⟨actorType, actorId, meetingId, chunkId⟩ := source
  cases meetingId <;> cases chunkId <;> exact ⟨rfl, rfl, rfl, rfl⟩

/-- What is written is read. -/
theorem readBody_bodyJson (b : NodeContentOperationBody) : readBody (bodyJson b) = some b := by
  obtain ⟨hoperation, hmarkdown, hversion, hsource⟩ := get_bodyJson b
  obtain ⟨hactorType, hactorId, hmeetingId, hchunkId⟩ := get_sourceJson b.source
  have hread : readSource (sourceJson b.source) = some b.source := by
    rw [readSource, hactorType, hactorId, hmeetingId, hchunkId, readOptional_string,
      readOptional_string]
    rfl
  rw [readBody, hoperation, hmarkdown, hversion, hsource, readVersion_number, Option.bind_some,
    hread]
  rfl

private theorem text_holds {text : String} {max : ℕ} (hne : text ≠ "") (hle : length text ≤ max) :
    ∀ d ∈ [Decorator.IsString, .IsNotEmpty, .MaxLength max],
      d.holds length (some (.string text)) = true := by
  intro d hd
  rcases List.mem_cons.mp hd with rfl | hd
  · rfl
  rcases List.mem_cons.mp hd with rfl | hd
  · simpa [Decorator.holds, isNil, stringOf] using hne
  · obtain rfl := List.mem_singleton.mp hd
    simpa [Decorator.holds, stringOf] using hle

/-- A property that may be missing, and is a string otherwise. -/
private theorem optional_holds {parents : List String} {object : Json} {property : String}
    {text : Option String} (h : object.get property = text.map .string) :
    Rule.violations length parents object ⟨property, true, [.IsString]⟩ = [] := by
  rw [Rule.violations_eq_nil_iff, h]
  cases text with
  | none => exact Or.inl ⟨rfl, rfl⟩
  | some text =>
      refine Or.inr fun d hd => ?_
      obtain rfl := List.mem_singleton.mp hd
      rfl

private theorem value_holds {parents : List String} {object : Json} {property value : String}
    (h : object.get property = some (.string value)) :
    Rule.violations length parents object ⟨property, false, [.IsIn [value]]⟩ = [] := by
  rw [Rule.violations_eq_nil_iff, h]
  refine Or.inr fun d hd => ?_
  obtain rfl := List.mem_singleton.mp hd
  simp [Decorator.holds, stringOf]

private theorem violations_sourceJson (h : Proper length b) {rule : Rule}
    (hrule : rule ∈ sourceRules) :
    rule.violations length ["source"] (sourceJson b.source) = [] := by
  obtain ⟨hactorType, hactorId, hmeetingId, hchunkId⟩ := get_sourceJson b.source
  rcases List.mem_cons.mp hrule with rfl | hrule
  · exact value_holds hactorType
  rcases List.mem_cons.mp hrule with rfl | hrule
  · rw [Rule.violations_eq_nil_iff, hactorId]
    exact Or.inr (text_holds h.actorId h.actorId_le)
  rcases List.mem_cons.mp hrule with rfl | hrule
  · exact optional_holds hmeetingId
  · obtain rfl := List.mem_singleton.mp hrule
    exact optional_holds hchunkId

/-- What is well formed passes. -/
theorem violations_bodyJson (h : Proper length b) : violations length (bodyJson b) = [] := by
  obtain ⟨hoperation, hmarkdown, hversion, hsource⟩ := get_bodyJson b
  refine List.append_eq_nil_iff.mpr ⟨List.flatMap_eq_nil_iff.mpr fun rule hrule => ?_, ?_⟩
  · rcases List.mem_cons.mp hrule with rfl | hrule
    · exact value_holds hoperation
    rcases List.mem_cons.mp hrule with rfl | hrule
    · rw [Rule.violations_eq_nil_iff, hmarkdown]
      exact Or.inr (text_holds h.markdown h.markdown_le)
    rcases List.mem_cons.mp hrule with rfl | hrule
    · rw [Rule.violations_eq_nil_iff, hversion]
      cases b.expectedVersion with
      | none => exact Or.inl ⟨rfl, rfl⟩
      | some n => exact Or.inr (number_holds n)
    · obtain rfl := List.mem_singleton.mp hrule
      rw [Rule.violations_eq_nil_iff, hsource]
      refine Or.inr fun d hd => ?_
      obtain rfl := List.mem_singleton.mp hd
      rfl
  · rw [hsource]
    exact List.flatMap_eq_nil_iff.mpr fun rule hrule => violations_sourceJson h hrule

/-! ### Texts -/

/-- `express.json` takes no longer body. -/
def LIMIT : ℕ := 100 * 1024

inductive ParseError
  | tooLarge
  | notJson
  deriving DecidableEq

/-- `express.json()`, of a text; it is strict, and takes no text for an empty object. -/
def parseBody (numeral : String → String) (text : String) : Except ParseError Json :=
  if LIMIT < text.utf8ByteSize then .error .tooLarge
  else if text = "" then .ok (.object [])
  else
    match readJson numeral text with
    | some (.object fields) => .ok (.object fields)
    | some (.array items) => .ok (.array items)
    | _ => .error .notJson

/-- **Nothing is refused that is JSON**: a text of a length that is allowed is no JSON for the
server exactly if it is neither an object nor an array, with whatever fuel it is read. -/
theorem parseBody_eq_notJson_iff {numeral : String → String} {text : String}
    (hlimit : text.utf8ByteSize ≤ LIMIT) (hne : text ≠ "") :
    parseBody numeral text = .error .notJson ↔
      ∀ value, Json.Reads numeral text.toList value →
        (∀ fields, value ≠ .object fields) ∧ ∀ items, value ≠ .array items := by
  have hread : readJson numeral text = Json.parse numeral text.toList := rfl
  simp only [← Json.parse_eq_some_iff, ← hread]
  rw [parseBody, if_neg (Nat.not_lt.mpr hlimit), if_neg hne]
  cases hvalue : readJson numeral text with
  | none => exact iff_of_true rfl fun value h => by cases h
  | some value =>
      cases value with
      | object fields => exact iff_of_false (by simp) fun h => (h _ rfl).1 fields rfl
      | array items => exact iff_of_false (by simp) fun h => (h _ rfl).2 items rfl
      | _ =>
          refine iff_of_true rfl fun value h => ?_
          cases h
          exact ⟨fun _ h => (by cases h), fun _ h => (by cases h)⟩

/-- The text is taken for the body. -/
def Accepted (F : Format) (length : String → ℕ) (text : String) (b : NodeContentOperationBody) :
    Prop :=
  ∃ body, parseBody F.numeral text = .ok body ∧ violations length body = [] ∧
    readBody body = some b

/-- The body can be sent. -/
def Sendable (b : NodeContentOperationBody) : Prop :=
  (jsonText (bodyJson b)).utf8ByteSize ≤ LIMIT ∧
    ∀ version ∈ b.expectedVersion, version ≤ Redis.MAX_VERSION

private theorem printed_sourceJson {numeral : String → String}
    (source : NodeContentOperationSource) : (sourceJson source).Printed numeral := by
  obtain ⟨actorType, actorId, meetingId, chunkId⟩ := source
  have hchunkId : (Json.object (optionalField "chunkId" (chunkId.map .string))).Printed
      numeral := by
    cases chunkId with
    | none => exact Json.printed_nil
    | some chunkId => exact Json.printed_string_cons (by simp) Json.printed_nil
  have hmeetingId : (Json.object (optionalField "meetingId" (meetingId.map .string) ++
      optionalField "chunkId" (chunkId.map .string))).Printed numeral := by
    cases meetingId with
    | none => exact hchunkId
    | some meetingId =>
        refine Json.printed_string_cons ?_ hchunkId
        cases chunkId <;> simp [optionalField]
  rw [sourceJson, List.append_assoc]
  refine Json.printed_string_cons ?_ (Json.printed_string_cons ?_ hmeetingId)
  · cases meetingId <;> cases chunkId <;> simp [optionalField]
  · cases meetingId <;> cases chunkId <;> simp [optionalField]

private theorem printed_bodyJson {numeral : String → String}
    (hnumeral : ∀ version ∈ b.expectedVersion, numeral version.repr = version.repr) :
    (bodyJson b).Printed numeral := by
  have hsource : (Json.object [("source", sourceJson b.source)]).Printed numeral :=
    Json.printed_object_cons.mpr ⟨by simp, printed_sourceJson b.source, Json.printed_nil⟩
  have hversion : (Json.object (optionalField "expectedVersion"
      (b.expectedVersion.map fun n => .number n.repr) ++ [("source", sourceJson b.source)])).Printed
      numeral := by
    cases hb : b.expectedVersion with
    | none => exact hsource
    | some n =>
        have hnumber := Json.printed_repr (hnumeral n hb)
        exact Json.printed_object_cons.mpr ⟨by simp, hnumber, hsource⟩
  rw [bodyJson, List.append_assoc]
  refine Json.printed_string_cons ?_ (Json.printed_string_cons ?_ hversion)
  · cases b.expectedVersion <;> simp [optionalField]
  · cases b.expectedVersion <;> simp [optionalField]

/-- What is written as JSON is taken for what it is. -/
theorem parseBody_bodyJson (F : Format) (h : Sendable b) :
    parseBody F.numeral (jsonText (bodyJson b)) = .ok (bodyJson b) := by
  have hread : readJson F.numeral (jsonText (bodyJson b)) = some (bodyJson b) :=
    Redis.readJson_jsonText (printed_bodyJson fun version hversion =>
      F.numeral_repr version (h.2 version hversion))
  have hne : jsonText (bodyJson b) ≠ "" := by
    intro hempty
    have hlist := congrArg String.toList hempty
    rw [jsonText, String.toList_ofList] at hlist
    cases hlist
  rw [parseBody, if_neg (Nat.not_lt.mpr h.1), if_neg hne, hread]
  rfl

/-- **What passes and is not foreign is well formed**, and a body can be sent exactly if it is
well formed. -/
theorem accepted_iff (F : Format) (length : String → ℕ) :
    (∀ body, violations length body = [] →
      Foreign body ∨ ∃ b, readBody body = some b ∧ Proper length b) ∧
    ∀ b, Sendable b → ((∃ text, Accepted F length text b) ↔ Proper length b) := by
  refine ⟨fun body hviolations => ?_, fun b hsendable => ⟨?_, fun hproper => ?_⟩⟩
  · by_cases hforeign : Foreign body
    · exact Or.inl hforeign
    · obtain ⟨b, hb⟩ := Option.isSome_iff_exists.mp (isSome_readBody hviolations hforeign)
      exact Or.inr ⟨b, hb, proper_of_readBody hviolations hb⟩
  · rintro ⟨text, body, -, hviolations, hread⟩
    exact proper_of_readBody hviolations hread
  · exact ⟨_, bodyJson b, parseBody_bodyJson F hsendable, violations_bodyJson hproper,
      readBody_bodyJson b⟩

/-- A body that asks for a version. -/
def versioned : NodeContentOperationBody :=
  ⟨.APPEND_MARKDOWN, "x", some 3, ⟨.AGENT, "agent", none, none⟩⟩

theorem versioned_accepted : ∃ text, Accepted Redis.plainFormat String.length text versioned := by
  have hsendable : Sendable versioned :=
    ⟨by decide +kernel, fun version hversion => by cases hversion; decide⟩
  exact ((accepted_iff Redis.plainFormat String.length).2 versioned hsendable).mpr
    ⟨by decide, by decide, by decide, by decide⟩

/-- An array is as good as its items: `[]` passes, `[5]` and `[{}]` do not. -/
example :
    nestedViolations String.length ["source"] (.array []) = [] ∧
      nestedViolations String.length ["source"] (.array [.number "5"]) = [.nested ["source", "0"]] ∧
      nestedViolations String.length ["source"] (.array [.object []]) ≠ [] := by
  decide

end AideepWebsocket.Http
