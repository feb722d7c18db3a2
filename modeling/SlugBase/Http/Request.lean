import SlugBase.Bookmark.Url
import Mathlib.Tactic.SplitIfs

/-!
# Requests

What the stages of the chain read of a request and of the route it matched.

* `Headers`, `Request`: the headers as the platform keeps them, and a request with its body;
* `MatchedRoute`: the operation of a request with its policy;
* `withoutCookies`: the request without its cookies.

The case of a text, the path of a URL and whether bytes are JSON are the runtime's.
-/

namespace SlugBase.Http

open JavaScript

/-- The language: `toLowerCase`, `toUpperCase`, `new URL(text).pathname`, and whether `JSON.parse` of bytes read as UTF-8
succeeds. -/
structure Runtime where
  toLowerCase : JsString → JsString
  toUpperCase : JsString → JsString
  pathnameOf : JsString → JsString
  isWellFormedJson : List UInt8 → Bool

/-! ## Headers -/

/-- The headers of a request in their order, under lower-case names. -/
abbrev Headers := List (JsString × JsString)

namespace Headers

variable (headers : Headers) (name : JsString)

def values : List JsString := (headers.filter (·.1 == name)).map (·.2)

/-- What stands between the values of one name. -/
def between : JsString := if name = js "cookie" then js "; " else js ", "

def get : Option JsString :=
  match headers.values name with
  | [] => none
  | values => some (List.intercalate (between name) values)

def has : Bool := (headers.get name).isSome

def delete : Headers := headers.filter (·.1 != name)

theorem values_delete : (headers.delete name).values name = [] := by
  rw [values, delete, List.filter_filter, List.map_eq_nil_iff, List.filter_eq_nil_iff]
  intro entry _
  simp

theorem get_delete : (headers.delete name).get name = none := by
  rw [get, values_delete]

end Headers

/-! ## Requests -/

/-- A request; none for a body of `null`. -/
structure Request where
  method : JsString
  url : JsString
  headers : Headers
  body : Option (List UInt8)
deriving DecidableEq

namespace Request

/-- The bytes of the body. -/
def bytes (raw : Request) : List UInt8 := raw.body.getD []

/-- A new `Request` of the same URL and method: no bytes are no body. -/
def remade (raw : Request) (headers : Headers) (bytes : List UInt8) : Request :=
  { raw with headers := headers, body := if bytes = [] then none else some bytes }

theorem bytes_remade (raw : Request) (headers : Headers) (bytes : List UInt8) : (raw.remade headers bytes).bytes = bytes := by
  rw [Request.bytes, remade]
  dsimp only
  split_ifs with h
  · exact h.symm
  · rfl

end Request

/-- `withoutCookies`. -/
def withoutCookies (raw : Request) : Request :=
  if raw.headers.has (js "cookie") then raw.remade (raw.headers.delete (js "cookie")) raw.bytes else raw

/-! ## Routes -/

inductive AuthPolicy
  | anonymous | partialSession | account | member | admin | owner | instanceAdmin | instanceAdminWithoutSecondFactor | machine
deriving DecidableEq

inductive RateBucket
  | login | mfa | register | reset | tokenRedeem | tokenCreate | setup | go | read | write | bulk | fetch | ai | publicPage | noBucket
deriving DecidableEq

inductive Audience
  | machine
  | marketingForm
deriving DecidableEq

/-- What the stages read of an operation; `declaresBody` says that it has a JSON request body. -/
structure OperationDefinition where
  operationId : JsString
  auth : AuthPolicy
  rate : RateBucket
  audience : Option Audience := none
  declaresBody : Bool := false
  maxBodyBytes : Option ℕ := none
deriving DecidableEq

structure MatchedRoute where
  operation : OperationDefinition
  acceptsMultipart : Option Bool := none
  marketingOrigin : Option JsString := none
deriving DecidableEq

/-! ## Contexts -/

structure SessionPrincipal where
  accountId : ℕ
  sessionId : ℕ
deriving DecidableEq

structure ApiTokenPrincipal where
  accountId : ℕ
  tokenId : ℕ
deriving DecidableEq

/-- Who made the request. -/
inductive Principal
  | session (principal : SessionPrincipal)
  | apiToken (principal : ApiTokenPrincipal)
deriving DecidableEq

def Principal.accountId : Principal → ℕ
  | .session principal => principal.accountId
  | .apiToken principal => principal.accountId

/-- The variables the stages share; `V` is what the stages keep that reads neither cookies nor credentials. -/
structure Context (V : Type) where
  raw : Request
  route : Option MatchedRoute
  clientIp : Option JsString := none
  principal : Option Principal := none
  vars : V

/-- A problem document. -/
structure Problem where
  code : String
  detail : String
deriving DecidableEq

/-- An answer: a problem, what an unexpected failure is answered with, or a response of `R`. -/
inductive Answer (R : Type)
  | problem (problem : Problem)
  | failure
  | response (response : R)

/-- What a lookup or a check says; `failed` when it cannot decide. -/
inductive Resolved (P : Type)
  | accepted (value : P)
  | refused
  | failed

end SlugBase.Http
