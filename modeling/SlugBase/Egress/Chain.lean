import SlugBase.Egress.Address
import Mathlib.Data.List.Basic

/-!
# The egress adapter

`HttpEgress`: a request that resolves its host, checks every answer and follows redirects by hand.

* `Url`, `Runtime`: the parsed address of a request and what the language's `URL` makes of a text;
* `Surroundings`: resolvers and servers that answer as they like, knowing everything that has happened;
* `parseTarget`, `validatedAddresses`, `connect`, `follow`, `chain`: the functions of the adapter;
* `HttpEgress.request`: the answer, and every connection that was tried.
-/

namespace SlugBase.Egress

/-! ## Requests -/

/-- What the adapter reads of a `URL`; `withoutFragment` is its `href` with an empty hash. -/
structure Url where
  protocol : String
  username : String
  password : String
  hostname : String
  host : String
  port : String
  pathname : String
  search : String
  hash : String
  origin : String
  href : String
  withoutFragment : String
deriving DecidableEq

/-- The language: `new URL(text)`, `new URL(location, base).href` and `toLowerCase`. -/
structure Runtime where
  parseUrl : String → Option Url
  joinUrl : String → Url → Option String
  toLowerCase : String → String

/-- The errors of the port. -/
inductive EgressErrorCode
  | failed
  | blocked
  | tooLarge
  | range
deriving DecidableEq

/-- A request; `body` is given when the method is `POST`, and `limitsInRange` says that its budget and size are in range. -/
structure EgressRequest where
  url : String
  method : Option String
  headers : List (String × String)
  body : Option (List UInt8)
  limitsInRange : Bool
  refuseHttpDowngrade : Bool

/-- The final answer. -/
structure EgressResponse where
  url : String
  status : ℕ
deriving DecidableEq

/-- The allowances for tests. -/
structure TestOnly where
  allowNonPublicAddresses : Bool
  allowAddresses : List String

structure CreateEgressOptions where
  nodeEnv : String
  privateOrigin : Option String
  testOnly : Option TestOnly

/-- An instance of the adapter. -/
structure HttpEgress where
  allowNonPublic : Bool
  allowedAddresses : List String
  privateOrigin : Option String
deriving DecidableEq

/-- The largest request body. -/
def EGRESS_MAX_REQUEST_BODY_BYTES : ℕ := 1048576

def RESERVED_HEADERS : List String := ["host", "content-length", "transfer-encoding", "connection", "accept-encoding"]

/-- The only caller headers that follow a redirect to another origin. -/
def CROSS_ORIGIN_HEADERS : List String := ["accept", "accept-language", "user-agent"]

def REDIRECT_STATUSES : List ℕ := [301, 302, 303, 307, 308]

/-- The redirects followed for one request. -/
def MAX_REDIRECTS : ℕ := 5

/-! ## Targets -/

variable (runtime : Runtime)

structure Target where
  url : Url
  hostname : String
  literal : Option ParsedAddress
deriving DecidableEq

/-- The host name, or the literal without brackets. -/
def hostnameOf (url : Url) : String :=
  match url.hostname.toList with
  | '[' :: rest => String.ofList rest.dropLast
  | _ => url.hostname

def isHttp (protocol : String) : Bool := decide (protocol = "http:" ∨ protocol = "https:")

/-- `parseTarget`. -/
def parseTarget (text : String) : Except EgressErrorCode Target :=
  match runtime.parseUrl text with
  | none => .error .blocked
  | some url =>
    if !isHttp url.protocol || decide (url.username ≠ "") || decide (url.password ≠ "") then .error .blocked
    else
      let hostname := hostnameOf url
      let literal := parseAddress hostname
      if hostname = "" then .error .blocked
      else if literal.isNone && hostname.toList.contains ':' then .error .blocked
      else .ok ⟨url, hostname, literal⟩

/-- `parsePrivateOrigin`; `none` when it throws. -/
def parsePrivateOrigin (text : String) : Option String :=
  (runtime.parseUrl text).bind fun url =>
    if !isHttp url.protocol || decide (url.hostname = "" ∨ url.pathname ≠ "/" ∨ url.search ≠ "" ∨ url.hash ≠ "" ∨
      url.username ≠ "" ∨ url.password ≠ "") then none
    else some url.origin

/-- The private origin of the options, if there is one. -/
def privateOriginOf : Option String → Option (Option String)
  | none => some none
  | some text => (parsePrivateOrigin runtime text).map some

/-- The constructor; `none` when it throws. -/
def HttpEgress.create (options : CreateEgressOptions) : Option HttpEgress :=
  if options.testOnly.isSome ∧ options.nodeEnv = "production" then none
  else
    (((options.testOnly.map TestOnly.allowAddresses).getD []).mapM fun text =>
      (parseAddress text).map formatAddress).bind fun allowed =>
    (privateOriginOf runtime options.privateOrigin).map fun privateOrigin =>
      ⟨(options.testOnly.map TestOnly.allowNonPublicAddresses).getD false, allowed, privateOrigin⟩

/-! ## The surroundings -/

/-- A connection that was tried: the target, what its host's answers were, the one it went to and what was sent. -/
structure Connection where
  target : Target
  answers : List ParsedAddress
  address : String
  method : String
  callerHeaders : List (String × String)
  body : Option (List UInt8)
  established : Bool

/-- The headers of a connection: the caller's but for the reserved ones, and those the adapter sets. -/
def Connection.headers (c : Connection) : List (String × String) :=
  c.callerHeaders ++ [("host", c.target.url.host), ("connection", "close"), ("accept-encoding", "gzip, deflate, br")] ++
    (c.body.map fun bytes => ("content-length", toString bytes.length)).toList

/-- What becomes of an exchange: the connection is not made, it fails otherwise, or there is an answer, which is read as a
response or refused. -/
inductive Outcome
  | notConnected
  | failed (established : Bool) (error : EgressErrorCode)
  | answered (status : ℕ) (location : Option String) (read : Except EgressErrorCode Unit)

/-- Resolvers and servers: they know every connection so far. A resolver gives no answer when it fails, when the deadline is
over or when too many lookups run. -/
structure Surroundings where
  resolve : List Connection → String → Except EgressErrorCode (List String)
  serve : List Connection → Connection → Outcome

/-! ## The chain -/

variable (egress : HttpEgress) (world : Surroundings)

/-- Whether an answer may be connected to. -/
def permitted (target : Target) (a : ParsedAddress) : Bool :=
  isPublicAddress a || egress.allowedAddresses.contains (formatAddress a) ||
    decide (egress.privateOrigin = some target.url.origin) && isOperatorPrivateAddress a

/-- `#validatedAddresses`, before the answers are formatted. -/
def validatedAddresses (log : List Connection) (target : Target) : Except EgressErrorCode (List ParsedAddress) := do
  let answers ← match target.literal with
    | some literal => .ok [literal]
    | none => do
      let texts ← world.resolve log target.hostname
      match texts.mapM parseAddress with
      | some (a :: rest) => .ok (a :: rest)
      | _ => .error .blocked
  if !egress.allowNonPublic && !answers.all (permitted egress target) then .error .blocked else .ok answers

/-- What an exchange ends with. -/
inductive Hop
  | response (response : EgressResponse)
  | redirect (status : ℕ) (location : String)

/-- A request on its way: the target to ask, and what it carries. -/
structure Chain where
  target : Target
  method : String
  headers : List (String × String)
  body : Option (List UInt8)
  visited : List String

def hasReserved (name : String) : Bool := RESERVED_HEADERS.contains (runtime.toLowerCase name)

/-- The connection of an exchange with one address. -/
def Chain.connection (c : Chain) (answers : List ParsedAddress) (a : ParsedAddress) : Connection where
  target := c.target
  answers := answers
  address := formatAddress a
  method := c.method
  callerHeaders := c.headers.filter fun h => !hasReserved runtime h.1
  body := c.body
  established := true

/-- `#exchange` once the outcome is there: a redirect is one of the statuses with a location. -/
def hopOf (target : Target) : Outcome → Except EgressErrorCode Hop
  | .notConnected => .error .failed
  | .failed _ error => .error error
  | .answered status location read =>
    match location with
    | some location =>
      if REDIRECT_STATUSES.contains status then .ok (.redirect status location)
      else read.map fun _ => .response ⟨target.url.href, status⟩
    | none => read.map fun _ => .response ⟨target.url.href, status⟩

/-- `#connect`: one address after the other until a connection is made. -/
def connect (c : Chain) (answers : List ParsedAddress) :
    List Connection → List ParsedAddress → Except EgressErrorCode Hop × List Connection
  | log, [] => (.error .failed, log)
  | log, a :: rest =>
    let tried := c.connection runtime answers a
    match world.serve log tried with
    | .notConnected => connect c answers (log ++ [{ tried with established := false }]) rest
    | .failed established error => (.error error, log ++ [{ tried with established := established }])
    | .answered status location read => (hopOf c.target (.answered status location read), log ++ [tried])

def onlyHeaders (headers : List (String × String)) (kept : List String) : List (String × String) :=
  headers.filter fun h => kept.contains (runtime.toLowerCase h.1)

def withoutHeaders (headers : List (String × String)) (dropped : List String) : List (String × String) :=
  headers.filter fun h => !dropped.contains (runtime.toLowerCase h.1)

/-- Whether a redirect turns the request into one without a body. -/
def becomesGet (status : ℕ) (method : String) : Bool :=
  if status = 303 then decide (method ≠ "HEAD") else decide ((status = 301 ∨ status = 302) ∧ method = "POST")

/-- A redirect that rewrites the method drops the body and its type. -/
def Chain.rewritten (c : Chain) (status : ℕ) : Chain :=
  if becomesGet status c.method then
    { c with method := "GET", body := none, headers := withoutHeaders runtime c.headers ["content-type"] }
  else c

/-- What a redirect makes of the request, `left` redirects before the last. -/
def follow (request : EgressRequest) (left : ℕ) (c : Chain) (status : ℕ) (location : String) :
    Except EgressErrorCode Chain :=
  match runtime.joinUrl location c.target.url with
  | none => .error .blocked
  | some text =>
    match parseTarget runtime text with
    | .error error => .error error
    | .ok next =>
      if request.refuseHttpDowngrade ∧ c.target.url.protocol = "https:" ∧ next.url.protocol = "http:" then .error .blocked
      else if next.url.withoutFragment ∈ c.visited ∨ left = 0 then .error .failed
      else
        let c := { c.rewritten runtime status with visited := next.url.withoutFragment :: c.visited }
        if next.url.origin ≠ c.target.url.origin then
          if c.body.isSome then .error .failed
          else .ok { c with headers := onlyHeaders runtime c.headers CROSS_ORIGIN_HEADERS, target := next }
        else .ok { c with target := next }

/-- **The loop of `request`**, `left` redirects before the last. -/
def chain (request : EgressRequest) : ℕ → Chain → List Connection → Except EgressErrorCode EgressResponse × List Connection
  | left, c, log =>
    match validatedAddresses egress world log c.target with
    | .error error => (.error error, log)
    | .ok answers =>
      match connect runtime world c answers log answers with
      | (.error error, log) => (.error error, log)
      | (.ok (.response response), log) => (.ok response, log)
      | (.ok (.redirect status location), log) =>
        match left, follow runtime request left c status location with
        | _, .error error => (.error error, log)
        | 0, .ok _ => (.error .failed, log)
        | left + 1, .ok next => chain request left next log

/-- The body that is sent: that of a `POST`. -/
def EgressRequest.sentBody (request : EgressRequest) : Option (List UInt8) :=
  if request.method = some "POST" then request.body else none

/-- **`HttpEgress.request`**: the answer, and the connections in their order. -/
def HttpEgress.request (request : EgressRequest) : Except EgressErrorCode EgressResponse × List Connection :=
  let method := request.method.getD "GET"
  let body := request.sentBody
  if !request.limitsInRange then (.error .range, [])
  else if method = "POST" ∧ body = none then (.error .range, [])
  else if (body.map fun bytes => decide (EGRESS_MAX_REQUEST_BODY_BYTES < bytes.length)).getD false then (.error .tooLarge, [])
  else
    match parseTarget runtime request.url with
    | .error error => (.error error, [])
    | .ok target =>
      chain runtime egress world request MAX_REDIRECTS
        ⟨target, method, request.headers, body, [target.url.withoutFragment]⟩ []

end SlugBase.Egress
