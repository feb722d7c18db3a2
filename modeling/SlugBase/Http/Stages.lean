import SlugBase.Http.Request
import SlugBase.Lib.Pipeline
import Mathlib.Data.Nat.Notation

/-!
# The stages that read credentials

Stages 3 to 5 of the chain: the body, the principal of the request and the protection against other sites.

* `bodyLimits`: the body is read, bounded and handed on;
* `createAuthentication`, `createAccessModeCheck`: the credential becomes a principal;
* `createCrossSiteProtection`: a mutation comes from the application itself, or without a cookie.
-/

namespace SlugBase.Http

open JavaScript Pipeline

variable {V R : Type}

/-- A stage of the chain. -/
abbrev RequestStage (V R : Type) := Stage (Context V) (Answer R)

def MUTATIONS : List JsString := ["POST", "PUT", "PATCH", "DELETE"].map js

/-- `BEARER`. -/
def isBearer (authorization : JsString) : Bool :=
  hasPrefix (js "bearer") authorization && (authorization.drop 6).head?.any isSpace

def JSON_MEDIA_TYPE : JsString := js "application/json"

def MULTIPART_MEDIA_TYPE : JsString := js "multipart/form-data"

variable (rt : Runtime)

def isMutation (method : JsString) : Bool := MUTATIONS.contains (rt.toUpperCase method)

/-- `mediaTypeOf`. -/
def mediaTypeOf (headers : Headers) : Option JsString :=
  (headers.get (js "content-type")).map fun value => rt.toLowerCase (trim (value.takeWhile (· != 0x3B)))

/-! ## The body -/

def DEFAULT_MAX_BODY_BYTES : ℕ := 65536

inductive BodyRefusal
  | payloadTooLarge
  | badRequest
  | unsupportedMediaType
deriving DecidableEq

def BodyRefusal.problem : BodyRefusal → Problem
  | .payloadTooLarge => ⟨"payload_too_large", "The request body is larger than this route accepts."⟩
  | .badRequest => ⟨"bad_request", "The request body is not valid JSON."⟩
  | .unsupportedMediaType => ⟨"unsupported_media_type", "This request must be sent as application/json."⟩

/-- `declaredLength`. -/
def declaredLength (headers : Headers) : Option ℕ :=
  match headers.get (js "content-length") with
  | none => none
  | some value =>
    if headers.has (js "transfer-encoding") || value = [] || !value.all (fun u => 0x30 ≤ u && u ≤ 0x39) then none
    else some (value.foldl (fun n u => 10 * n + (u.toNat - 0x30)) 0)

/-- Stage 3. -/
def bodyLimits : RequestStage V R := fun c =>
  match c.raw.body with
  | none => .next c
  | some bytes =>
    let operation := c.route.map (·.operation)
    let limit := (operation.bind (·.maxBodyBytes)).getD DEFAULT_MAX_BODY_BYTES
    if (declaredLength c.raw.headers).any (limit < ·) || decide (limit < bytes.length) then
      .answer (.problem BodyRefusal.payloadTooLarge.problem)
    else if bytes ≠ [] ∧ isBearer ((c.raw.headers.get (js "authorization")).getD []) ∧ isMutation rt c.raw.method ∧
        mediaTypeOf rt c.raw.headers ≠ some JSON_MEDIA_TYPE then .answer (.problem BodyRefusal.unsupportedMediaType.problem)
    else if bytes ≠ [] ∧ operation.any (·.declaresBody) ∧ mediaTypeOf rt c.raw.headers = some JSON_MEDIA_TYPE ∧
        !rt.isWellFormedJson bytes then .answer (.problem BodyRefusal.badRequest.problem)
    else .next { c with raw := c.raw.remade c.raw.headers bytes }

/-! ## The principal -/

/-- A resolver of one kind of credential. -/
inductive Authenticator
  | bearer (authenticate : JsString → Option JsString → Resolved ApiTokenPrincipal)
  | cookie (authenticate : JsString → Resolved SessionPrincipal)

/-- The first answer that is not a refusal. -/
def firstAccepted {P : Type} : List (Resolved P) → Resolved P
  | [] => .refused
  | .refused :: rest => firstAccepted rest
  | decided :: _ => decided

/-- What the bearer authenticators say of a header; none when there are none. -/
def bearerAnswers (authenticators : List Authenticator) (authorization : JsString) (clientIp : Option JsString) :
    List (Resolved ApiTokenPrincipal) :=
  authenticators.filterMap fun authenticator =>
    match authenticator with
    | .bearer authenticate => some (authenticate authorization clientIp)
    | .cookie _ => none

/-- What the cookie authenticators say of a header. -/
def cookieAnswers (authenticators : List Authenticator) (cookies : JsString) : List (Resolved SessionPrincipal) :=
  authenticators.filterMap fun authenticator =>
    match authenticator with
    | .bearer _ => none
    | .cookie authenticate => some (authenticate cookies)

def notAccepted : Problem := ⟨"unauthenticated", "The credential was not accepted."⟩

/-- The cookies of a request without an `Authorization` header. -/
def authenticateCookies (authenticators : List Authenticator) (c : Context V) : Step (Context V) (Answer R) :=
  match c.raw.headers.get (js "cookie") with
  | none => .next c
  | some cookies =>
    match firstAccepted (cookieAnswers authenticators cookies) with
    | .accepted principal => .next { c with principal := some (.session principal) }
    | .refused => .next c
    | .failed => .answer .failure

/-- The `Authorization` header of a request. -/
def authenticateBearer (authenticators : List Authenticator) (authorization : JsString) (c : Context V) :
    Step (Context V) (Answer R) :=
  if bearerAnswers authenticators authorization c.clientIp = [] then .next c
  else match firstAccepted (bearerAnswers authenticators authorization c.clientIp) with
    | .accepted principal => .next { c with principal := some (.apiToken principal) }
    | .refused => .answer (.problem notAccepted)
    | .failed => .answer .failure

/-- `createAuthentication`. -/
def createAuthentication (authenticators : List Authenticator) : RequestStage V R := fun c =>
  match c.route with
  | none => .next c
  | some route =>
    if authenticators.isEmpty || route.operation.audience.isSome then .next c
    else if route.operation.rate = .noBucket ∧ route.operation.auth = .anonymous then .next c
    else match c.raw.headers.get (js "authorization") with
      | some authorization => authenticateBearer authenticators authorization c
      | none => authenticateCookies authenticators c

/-! ## The access mode -/

def EXPORT_ONLY_OPERATIONS : List JsString :=
  ["verifyMfa", "logout", "startOidcSignIn", "completeOidcSignIn", "getApiConfig", "getMe", "listWorkspaces", "getWorkspace",
    "setActiveWorkspace", "listBookmarks", "listBookmarkIds", "getBookmark", "listFolders", "getFolder", "listTags",
    "getTagStats", "exportJson", "exportNetscape", "reauthenticate", "deleteMe"].map js

/-- The mode of an account. -/
inductive AccessMode
  | full
  | exportOnly

/-- `refuseExportOnly`: none when the account may go on. -/
def refuseExportOnly (mode : Resolved AccessMode) : Option (Answer R) :=
  match mode with
  | .failed => some .failure
  | .refused => some (.problem notAccepted)
  | .accepted .exportOnly =>
    some (.problem ⟨"account_export_only", "This account can only read and export its data until its access ends."⟩)
  | .accepted .full => none

/-- Whether an operation is one that a session of an export-only account may call. -/
def mayCall (principal : Principal) (operation : OperationDefinition) : Bool :=
  match principal with
  | .session _ => EXPORT_ONLY_OPERATIONS.contains operation.operationId
  | .apiToken _ => false

/-- `createAccessModeCheck`; `accountAccessMode` refuses an account that does not exist. -/
def createAccessModeCheck (accountAccessMode : ℕ → Resolved AccessMode) : RequestStage V R := fun c =>
  match c.principal, c.route with
  | some principal, some route =>
    if mayCall principal route.operation then .next c
    else match refuseExportOnly (accountAccessMode principal.accountId) with
      | some answer => .answer answer
      | none => .next c
  | _, _ => .next c

/-! ## Other sites -/

inductive Refusal
  | missingOrigin
  | originMismatch
  | crossSiteFetch
  | contentType
  | preflight
deriving DecidableEq

def DETAILS : Refusal → String
  | .missingOrigin => "This request must come from the application itself."
  | .originMismatch => "This request must come from the application itself."
  | .crossSiteFetch => "This request must come from the application itself."
  | .contentType => "This request must be sent as application/json."
  | .preflight => "Cross-origin requests are not accepted."

/-- The header a marketing-site proxy forwards the visitor's solution in. -/
def CHALLENGE_SOLUTION_HEADER : JsString := js "x-challenge-solution"

/-- The origin of `APP_ORIGIN`, and what the challenge says of a solution. -/
structure CrossSiteOptions where
  expectedOrigin : JsString
  verify : Option JsString → Resolved Unit

def refuse (reason : Refusal) : Step (Context V) (Answer R) := .answer (.problem ⟨"cross_site_request", DETAILS reason⟩)

def isApiPath (path : JsString) : Bool := path == js "/api" || (js "/api/").isPrefixOf path

/-- The context without its cookies. -/
def Context.withoutCookies (c : Context V) : Context V := { c with raw := Http.withoutCookies c.raw }

/-- A `marketing-form` request of these headers, which goes on as `c`. -/
def marketingForm (options : CrossSiteOptions) (route : MatchedRoute) (headers : Headers) (c : Context V) :
    Step (Context V) (Answer R) :=
  let origin := headers.get (js "origin")
  if route.marketingOrigin = none ∨ origin ≠ route.marketingOrigin then
    refuse (if origin = none then .missingOrigin else .originMismatch)
  else if mediaTypeOf rt headers ≠ some JSON_MEDIA_TYPE then refuse .contentType
  else match options.verify (headers.get CHALLENGE_SOLUTION_HEADER) with
    | .accepted _ => .next c
    | .refused => .answer (.problem ⟨"forbidden", "The challenge was not solved."⟩)
    | .failed => .answer .failure

/-- The rule of a browser-facing mutation of these headers, which goes on as `c`. -/
def browserFacing (options : CrossSiteOptions) (headers : Headers) (c : Context V) : Step (Context V) (Answer R) :=
  if !isMutation rt c.raw.method then .next c
  else match headers.get (js "origin") with
    | none => refuse .missingOrigin
    | some origin =>
      if origin ≠ options.expectedOrigin then refuse .originMismatch
      else if (headers.get (js "sec-fetch-site")).any (· != js "same-origin") then refuse .crossSiteFetch
      else if mediaTypeOf rt headers ≠ some JSON_MEDIA_TYPE ∧
          ¬(c.route.bind (·.acceptsMultipart) = some true ∧ mediaTypeOf rt headers = some MULTIPART_MEDIA_TYPE) then
        refuse .contentType
      else .next c

/-- A request to a route with no audience: a bearer token needs no cookie, and any `Authorization` header takes it away. -/
def byAuthorization (options : CrossSiteOptions) (c : Context V) : Step (Context V) (Answer R) :=
  match c.raw.headers.get (js "authorization") with
  | some authorization =>
    if isBearer authorization then .next c.withoutCookies
    else browserFacing rt options c.raw.headers c.withoutCookies
  | none => browserFacing rt options c.raw.headers c

/-- `createCrossSiteProtection`. -/
def createCrossSiteProtection (options : CrossSiteOptions) : RequestStage V R := fun c =>
  if rt.toUpperCase c.raw.method = js "OPTIONS" ∧ isApiPath (rt.pathnameOf c.raw.url) then refuse .preflight
  else match c.route.bind (·.operation.audience), c.route with
    | some .machine, _ => .next c.withoutCookies
    | some .marketingForm, some route => marketingForm rt options route c.raw.headers c.withoutCookies
    | _, _ => byAuthorization rt options c

end SlugBase.Http
