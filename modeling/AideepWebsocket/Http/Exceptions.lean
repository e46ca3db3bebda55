import AideepWebsocket.NodeContent.Operation
import AideepWebsocket.Redis.Values

/-!
# What a client is answered

A request over HTTP ends with a value or with an exception, and the client sees neither.
`ResponseInterceptor` puts a value into an envelope, and `AllExceptionsFilter` makes an
envelope of an exception: of one of Nest's own, it keeps the status and a reason.

* `Exception` — what may be thrown, as far as the filter can tell it apart;
* `AllExceptionsFilter.catchException` — the answer to it;
* `exceptionOf` — the exception that `executeContentOperation` throws;
* `answer_eq_iff` — **what the filter keeps**: an error that carries a code is answered like
  every other one of its status, so neither the code nor `currentVersion` gets through.

The texts with which Nest fills up an exception that has been given none are a parameter.
-/

namespace AideepWebsocket.Http

open Library
open NodeContent (ErrorBody NodeContentOperationResponse OperationError)

/-! ### Exceptions -/

/-- `BasicError`; its description is a string. -/
structure BasicError where
  status : ℕ
  code : String
  message : String
  description : String

/-- An `HttpException` of Nest: `getStatus()`, `message` and `getResponse()`. -/
structure HttpException where
  status : ℕ
  message : String
  response : Json

inductive Exception
  | basicError (error : BasicError)
  | httpException (exception : HttpException)
  | other

structure Response where
  status : ℕ
  body : Json

/-! ### Envelopes -/

/-- The envelope of an error. -/
def failure (errorCode reason : String) (data : Json) : Json :=
  .object [("resultType", .string "FAIL"),
    ("error", .object [("errorCode", .string errorCode), ("reason", .string reason),
      ("data", data)]),
    ("success", .null)]

def BasicError.toJSON (error : BasicError) : Json :=
  failure error.code error.message (.string error.description)

/-- The envelope of what a controller has returned; `undefined` is left out. -/
def ResponseInterceptor.intercept (data : Option Json) : Json :=
  .object ([("resultType", .string "SUCCESS"), ("error", .null)] ++
    (data.map fun data => ("success", data)).toList)

namespace AllExceptionsFilter

/-- `items.join(', ')`. -/
def join (items : List Json) : String := ", ".intercalate (Json.textOfItems items)

/-- The reason that the client is given. -/
def reason (exception : HttpException) : String :=
  match exception.response.get "message" with
  | some (.array items) => join items
  | some (.string message) => message
  | _ => exception.message

/-- `res.error || ''`. -/
def data (exception : HttpException) : Json :=
  match exception.response.get "error" with
  | none | some .null | some (.bool false) => .string ""
  | some (.number literal) => if literal = "0" then .string "" else .number literal
  | some error => error

/-- `catch`. -/
def catchException : Exception → Response
  | .basicError error => ⟨error.status, error.toJSON⟩
  | .httpException exception =>
      ⟨exception.status,
        failure ("HTTP-" ++ exception.status.repr) (reason exception) (data exception)⟩
  | .other => ⟨500, failure "COMMON-500" "서버 내부 오류가 발생했습니다." (.string "")⟩

end AllExceptionsFilter

open AllExceptionsFilter

/-! ### The exceptions of Nest -/

/-- The texts that Nest has for the exception of a status. -/
structure StatusTexts where
  /-- The words of the class, such as `Conflict Exception`. -/
  name : ℕ → String
  /-- Such as `Conflict`. -/
  description : ℕ → String

variable (texts : StatusTexts)

/-- An exception that is created with a message. -/
def withMessage (status : ℕ) (message : String) : HttpException where
  status := status
  message := message
  response := .object [("message", .string message),
    ("error", .string (texts.description status)), ("statusCode", .number status.repr)]

/-- An exception that is created with nothing. -/
def withoutMessage (status : ℕ) : HttpException where
  status := status
  message := texts.description status
  response := .object [("message", .string (texts.description status)),
    ("statusCode", .number status.repr)]

/-- An exception that is created with the messages of a validation. -/
def withMessages (status : ℕ) (messages : List String) : HttpException where
  status := status
  message := texts.name status
  response := .object [("message", .array (messages.map .string)),
    ("error", .string (texts.description status)), ("statusCode", .number status.repr)]

/-- An exception that is created with an object. -/
def withObject (status : ℕ) (fields : List (String × Json)) : HttpException where
  status := status
  message := texts.name status
  response := .object fields

/-- What `executeContentOperation` throws. -/
def httpException (status : ℕ) : ErrorBody → HttpException
  | .code code => withObject texts status [("code", .string code)]
  | .message text => withMessage texts status text
  | .versionConflict currentVersion =>
      withObject texts status [("code", .string "VERSION_CONFLICT"),
        ("currentVersion", .number currentVersion.repr)]

/-- The database, Redis, the document and the gateway throw errors of their own. -/
def exceptionOf : OperationError → Exception
  | .http status body => .httpException (httpException texts status body)
  | .database | .redis | .append | .broadcast => .other

/-- The answer to an operation. -/
def answer (names : Redis.Naming) :
    Except OperationError (Option NodeContentOperationResponse) → Response
  | .ok response =>
      ⟨201, ResponseInterceptor.intercept (response.map (Redis.responseJson names))⟩
  | .error error => catchException (exceptionOf texts error)

/-! ### What the filter keeps -/

/-- The status and the text that the client is given. -/
def seen : OperationError → Option (ℕ × Option String)
  | .http status (.message text) => some (status, some text)
  | .http status (.code _) | .http status (.versionConflict _) => some (status, none)
  | .database | .redis | .append | .broadcast => none

variable {texts}

private theorem failure_inj {code code' reason reason' : String} {data data' : Json}
    (h : failure code reason data = failure code' reason' data') :
    code = code' ∧ reason = reason' ∧ data = data' := by
  simpa [failure] using h

/-- An object of the server's own is answered with the words of the class. -/
private theorem catch_object (status : ℕ) (body : ErrorBody) (h : ∀ text, body ≠ .message text) :
    catchException (.httpException (httpException texts status body)) =
      ⟨status, failure ("HTTP-" ++ status.repr) (texts.name status) (.string "")⟩ := by
  cases body with
  | message text => exact absurd rfl (h text)
  | code code => rfl
  | versionConflict currentVersion => rfl

private theorem catch_message (status : ℕ) (text : String) :
    catchException (.httpException (httpException texts status (.message text))) =
      ⟨status, failure ("HTTP-" ++ status.repr) text (.string (texts.description status))⟩ :=
  rfl

/-- The answer to an error, by what is seen of it. -/
def answerOf (texts : StatusTexts) : Option (ℕ × Option String) → Response
  | some (status, some text) =>
      ⟨status, failure ("HTTP-" ++ status.repr) text (.string (texts.description status))⟩
  | some (status, none) =>
      ⟨status, failure ("HTTP-" ++ status.repr) (texts.name status) (.string "")⟩
  | none => catchException .other

private theorem answer_error (names : Redis.Naming) (error : OperationError) :
    answer texts names (.error error) = answerOf texts (seen error) := by
  cases error with
  | http status body =>
      cases body with
      | message text => exact catch_message status text
      | code code => exact catch_object status _ fun text h => by cases h
      | versionConflict currentVersion => exact catch_object status _ fun text h => by cases h
  | _ => rfl

/-- An error of Nest has another code than one that nobody has foreseen. -/
private theorem ne_unforeseen (status : ℕ) : "HTTP-" ++ status.repr ≠ "COMMON-500" := by
  intro h
  have hlist := congrArg String.toList h
  rw [String.toList_append] at hlist
  exact absurd (List.cons.inj hlist).1 (by decide)

private theorem answerOf_injective (hdescription : ∀ status, texts.description status ≠ "") :
    Function.Injective (answerOf texts) := by
  intro a b h
  have hstatus := congrArg Response.status h
  have hbody := congrArg Response.body h
  rcases a with _ | ⟨status, _ | text⟩ <;> rcases b with _ | ⟨status', _ | text'⟩
  · rfl
  · exact absurd (failure_inj hbody).1.symm (ne_unforeseen status')
  · exact absurd (failure_inj hbody).1.symm (ne_unforeseen status')
  · exact absurd (failure_inj hbody).1 (ne_unforeseen status)
  · obtain rfl : status = status' := hstatus
    rfl
  · have hempty : "" = texts.description status' := Json.string.inj (failure_inj hbody).2.2
    exact absurd hempty.symm (hdescription status')
  · exact absurd (failure_inj hbody).1 (ne_unforeseen status)
  · have hempty : texts.description status = "" := Json.string.inj (failure_inj hbody).2.2
    exact absurd hempty (hdescription status)
  · obtain rfl : status = status' := hstatus
    obtain rfl : text = text' := (failure_inj hbody).2.1
    rfl

/-- **What the filter keeps** of an error: two of them are answered alike exactly if they
have the same status and the same text, or no text at all. -/
theorem answer_eq_iff (names : Redis.Naming)
    (hdescription : ∀ status, texts.description status ≠ "") (error error' : OperationError) :
    answer texts names (.error error) = answer texts names (.error error') ↔
      seen error = seen error' := by
  rw [answer_error, answer_error]
  exact (answerOf_injective hdescription).eq_iff

end AideepWebsocket.Http
