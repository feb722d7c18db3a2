import SlugBase.Http.Stages
import Mathlib.Tactic.SplitIfs
import Mathlib.Tactic.Push

/-!
# The chain

The stages of a request in their fixed order, and what the handler of a mutation may act on.

* `requestStages`, `serve`: the chain up to the handler;
* `Arrived`, `Authenticated`, `Protected`: what holds of the context before stage 4, between 4 and 5, and behind 5;
* **`crossSite`**: a handler of a mutation that has a session or can read a cookie serves a request of the application
  itself, and a request with a credential of its own reaches its handler without cookies and otherwise unchanged.
-/

namespace SlugBase.Http

open JavaScript Pipeline

variable {V R : Type}

/-! ## The stages -/

/-- A stage that answers or keeps what it finds out in its own variables. -/
abbrev Gate (V R : Type) := Context V → Answer R ⊕ V

def Gate.stage (gate : Gate V R) : RequestStage V R := fun c =>
  match gate c with
  | .inl answer => .answer answer
  | .inr vars => .next { c with vars := vars }

/-- What the chain is built of; `requestContext` gives the address of the client. -/
structure ChainDependencies (V R : Type) where
  requestContext : Context V → Option JsString × V
  securityHeaders : Gate V R
  ipRateLimiting : Gate V R
  authenticators : List Authenticator
  accountAccessMode : ℕ → Resolved AccessMode
  crossSite : CrossSiteOptions
  rateLimiting : Gate V R
  tenantResolution : Gate V R
  validation : Gate V R
  authorization : Gate V R
  idempotency : Gate V R

/-- Stage 1. -/
def requestContextStage (stage : Context V → Option JsString × V) : RequestStage V R := fun c =>
  .next { c with clientIp := (stage c).1, vars := (stage c).2 }

variable (rt : Runtime) (deps : ChainDependencies V R)

/-- The stages up to the principal. -/
def stagesOfArrival : List (RequestStage V R) :=
  [requestContextStage deps.requestContext, deps.securityHeaders.stage, bodyLimits rt, deps.ipRateLimiting.stage]

/-- Stage 4, with the access-mode check that is part of it, and stage 5. -/
def stagesOfCredentials : List (RequestStage V R) :=
  [run [createAuthentication deps.authenticators, createAccessModeCheck deps.accountAccessMode],
    createCrossSiteProtection rt deps.crossSite]

def stagesOfHandling : List (RequestStage V R) :=
  [deps.rateLimiting.stage, deps.tenantResolution.stage, deps.validation.stage, deps.authorization.stage,
    deps.idempotency.stage]

/-- `REQUEST_STAGES`, in their order. -/
def requestStages : List (RequestStage V R) := stagesOfArrival rt deps ++ (stagesOfCredentials rt deps ++ stagesOfHandling deps)

/-- What becomes of a request. -/
inductive Served (V R : Type)
  | handled (c : Context V) (route : MatchedRoute)
  | notFound
  | answered (answer : Answer R)

/-- The chain up to the handler. -/
def serve (request : Request) (route : Option MatchedRoute) (vars : V) : Served V R :=
  match run (requestStages rt deps) { raw := request, route := route, vars := vars } with
  | .answer answer => .answered answer
  | .next c =>
    match c.route with
    | none => .notFound
    | some route => .handled c route

/-! ## What a handler may act on -/

/-- The context has a session principal. -/
def Context.hasSession (c : Context V) : Prop := ∃ principal, c.principal = some (.session principal)

/-- **A request of the application itself.** -/
structure FromTheApplication (options : CrossSiteOptions) (route : MatchedRoute) (request : Request) : Prop where
  authorization : request.headers.get (js "authorization") = none
  audience : route.operation.audience = none
  origin : request.headers.get (js "origin") = some options.expectedOrigin
  site : request.headers.get (js "sec-fetch-site") = none ∨ request.headers.get (js "sec-fetch-site") = some (js "same-origin")
  mediaType : mediaTypeOf rt request.headers = some JSON_MEDIA_TYPE ∨
    route.acceptsMultipart = some true ∧ mediaTypeOf rt request.headers = some MULTIPART_MEDIA_TYPE

/-- A request brings a credential of its own, or its route is declared to need none. -/
def NoAmbient (request : Request) (route : MatchedRoute) : Prop :=
  request.headers.get (js "authorization") ≠ none ∨ route.operation.audience ≠ none

/-- The request as it was, but for its cookies. -/
structure WithoutCookies (request raw : Request) : Prop where
  cookie : raw.headers.get (js "cookie") = none
  method : raw.method = request.method
  url : raw.url = request.url
  bytes : raw.bytes = request.bytes
  headers : raw.headers = request.headers.delete (js "cookie")

/-! ## Invariants -/

variable (request : Request) (route : Option MatchedRoute)

/-- The request is the one that came in. -/
structure Carried (c : Context V) : Prop where
  method : c.raw.method = request.method
  url : c.raw.url = request.url
  bytes : c.raw.bytes = request.bytes
  headers : c.raw.headers = request.headers
  sameRoute : c.route = route

/-- Before stage 4 there is no principal. -/
structure Arrived (c : Context V) : Prop extends Carried request route c where
  principal : c.principal = none

/-- Behind stage 4 a session comes with no `Authorization` header and no audience. -/
structure Authenticated (c : Context V) : Prop extends Carried request route c where
  session : c.hasSession → request.headers.get (js "authorization") = none ∧ (route.bind (·.operation.audience)) = none

/-- Behind stage 5. -/
structure Protected (c : Context V) : Prop where
  sameRoute : c.route = route
  mutation : ∀ matched, route = some matched → isMutation rt request.method →
    (c.hasSession ∨ c.raw.headers.get (js "cookie") ≠ none) → FromTheApplication rt deps.crossSite matched request
  noAmbient : ∀ matched, route = some matched → NoAmbient request matched → WithoutCookies request c.raw

section

variable {rt deps request route} {c c' : Context V}

theorem Headers.delete_of_get {headers : Headers} {name : JsString} (h : headers.get name = none) :
    headers.delete name = headers := by
  unfold Headers.get at h
  split at h
  next hvalues =>
    rw [Headers.values, List.map_eq_nil_iff, List.filter_eq_nil_iff] at hvalues
    refine List.filter_eq_self.mpr fun entry hentry => ?_
    have hother := hvalues entry hentry
    simpa using hother
  next => cases h

theorem Gate.stage_next {gate : Gate V R} (h : gate.stage c = .next c') :
    c'.raw = c.raw ∧ c'.route = c.route ∧ c'.principal = c.principal := by
  unfold Gate.stage at h
  cases hgate : gate c with
  | inl answer =>
    rw [hgate] at h
    cases h
  | inr vars =>
    rw [hgate] at h
    cases h
    exact ⟨rfl, rfl, rfl⟩

theorem Carried.of_eq (h : Carried request route c) (hraw : c'.raw = c.raw) (hroute : c'.route = c.route) :
    Carried request route c' where
  method := hraw ▸ h.method
  url := hraw ▸ h.url
  bytes := hraw ▸ h.bytes
  headers := hraw ▸ h.headers
  sameRoute := hroute ▸ h.sameRoute

theorem Arrived.of_eq (h : Arrived request route c) (hraw : c'.raw = c.raw) (hroute : c'.route = c.route)
    (hprincipal : c'.principal = c.principal) : Arrived request route c' :=
  ⟨h.toCarried.of_eq hraw hroute, hprincipal ▸ h.principal⟩

theorem Protected.of_eq (h : Protected rt deps request route c) (hraw : c'.raw = c.raw) (hroute : c'.route = c.route)
    (hprincipal : c'.principal = c.principal) : Protected rt deps request route c' := by
  refine ⟨hroute ▸ h.sameRoute, ?_, ?_⟩
  · rw [Context.hasSession, hprincipal, hraw]
    exact h.mutation
  · rw [hraw]
    exact h.noAmbient

/-! ## The stages before the principal -/

theorem bodyLimits_arrived (h : Arrived request route c) (hnext : bodyLimits (R := R) rt c = .next c') :
    Arrived request route c' := by
  unfold bodyLimits at hnext
  cases hbody : c.raw.body with
  | none =>
    rw [hbody] at hnext
    cases hnext
    exact h
  | some bytes =>
    rw [hbody] at hnext
    dsimp only at hnext
    split_ifs at hnext
    cases hnext
    refine ⟨⟨h.method, h.url, ?_, h.headers, h.sameRoute⟩, h.principal⟩
    rw [Request.bytes_remade, ← h.bytes, Request.bytes, hbody, Option.getD_some]

theorem stagesOfArrival_leads : Leads (Arrived request route) (stagesOfArrival rt deps) (Arrived request route) := by
  refine Leads.run fun stage hstage c c' harrived hnext => ?_
  simp only [stagesOfArrival, List.mem_cons, List.not_mem_nil, or_false] at hstage
  rcases hstage with rfl | rfl | rfl | rfl
  · cases hnext
    exact harrived.of_eq rfl rfl rfl
  · obtain ⟨hraw, hroute, hprincipal⟩ := Gate.stage_next hnext
    exact harrived.of_eq hraw hroute hprincipal
  · exact bodyLimits_arrived harrived hnext
  · obtain ⟨hraw, hroute, hprincipal⟩ := Gate.stage_next hnext
    exact harrived.of_eq hraw hroute hprincipal

/-! ## The principal -/

theorem Arrived.unauthenticated (h : Arrived request route c) : Authenticated request route c := by
  refine ⟨h.toCarried, ?_⟩
  rintro ⟨principal, hprincipal⟩
  rw [h.principal] at hprincipal
  cases hprincipal

theorem authenticateBearer_next {authenticators : List Authenticator} {authorization : JsString}
    (h : authenticateBearer (R := R) authenticators authorization c = .next c') (hc : c.principal = none) :
    c'.raw = c.raw ∧ c'.route = c.route ∧ ¬c'.hasSession := by
  have hanonymous : ¬c.hasSession := by
    rintro ⟨principal, hprincipal⟩
    rw [hc] at hprincipal
    cases hprincipal
  unfold authenticateBearer at h
  split_ifs at h with hnone
  · cases h
    exact ⟨rfl, rfl, hanonymous⟩
  · cases haccepted : firstAccepted (bearerAnswers authenticators authorization c.clientIp) with
    | accepted principal =>
      rw [haccepted] at h
      cases h
      exact ⟨rfl, rfl, fun ⟨_, hsession⟩ => by cases hsession⟩
    | refused =>
      rw [haccepted] at h
      cases h
    | failed =>
      rw [haccepted] at h
      cases h

theorem authenticateCookies_next {authenticators : List Authenticator}
    (h : authenticateCookies (R := R) authenticators c = .next c') : c'.raw = c.raw ∧ c'.route = c.route := by
  unfold authenticateCookies at h
  cases hcookie : c.raw.headers.get (js "cookie") with
  | none =>
    rw [hcookie] at h
    cases h
    exact ⟨rfl, rfl⟩
  | some cookies =>
    rw [hcookie] at h
    dsimp only at h
    cases haccepted : firstAccepted (cookieAnswers authenticators cookies) with
    | accepted principal =>
      rw [haccepted] at h
      cases h
      exact ⟨rfl, rfl⟩
    | refused =>
      rw [haccepted] at h
      cases h
      exact ⟨rfl, rfl⟩
    | failed =>
      rw [haccepted] at h
      cases h

/-- **A session comes with no `Authorization` header and no audience.** -/
theorem createAuthentication_authenticated {authenticators : List Authenticator} (h : Arrived request route c)
    (hnext : createAuthentication (R := R) authenticators c = .next c') : Authenticated request route c' := by
  unfold createAuthentication at hnext
  rw [h.sameRoute] at hnext
  cases hroute : route with
  | none =>
    rw [hroute] at hnext
    cases hnext
    exact hroute ▸ h.unauthenticated
  | some matched =>
    rw [hroute] at hnext
    dsimp only at hnext
    split_ifs at hnext with hnobody hprobe
    · cases hnext
      exact hroute ▸ h.unauthenticated
    · cases hnext
      exact hroute ▸ h.unauthenticated
    · rw [Bool.or_eq_true, not_or, Option.not_isSome_iff_eq_none] at hnobody
      have hheader := congrArg (fun headers => Headers.get headers (js "authorization")) h.headers
      cases hauthorization : c.raw.headers.get (js "authorization") with
      | some authorization =>
        rw [hauthorization] at hnext
        obtain ⟨hraw, hsame, hanonymous⟩ := authenticateBearer_next hnext h.principal
        exact ⟨hroute ▸ h.toCarried.of_eq hraw hsame, fun hsession => absurd hsession hanonymous⟩
      | none =>
        rw [hauthorization] at hnext
        obtain ⟨hraw, hsame⟩ := authenticateCookies_next hnext
        exact ⟨hroute ▸ h.toCarried.of_eq hraw hsame, fun _ => ⟨hheader ▸ hauthorization, hnobody.2⟩⟩

theorem createAccessModeCheck_next {accountAccessMode : ℕ → Resolved AccessMode}
    (h : createAccessModeCheck (R := R) accountAccessMode c = .next c') : c' = c := by
  unfold createAccessModeCheck at h
  split at h
  next principal matched _ _ =>
    split_ifs at h with hmay
    · cases h
      rfl
    · cases hmode : refuseExportOnly (R := R) (accountAccessMode principal.accountId) with
      | some answer =>
        rw [hmode] at h
        cases h
      | none =>
        rw [hmode] at h
        cases h
        rfl
  next =>
    cases h
    rfl

/-! ## Other sites -/

theorem withoutCookies_spec (request : Request) (h : Carried request route c) :
    WithoutCookies request (Http.withoutCookies c.raw) := by
  unfold Http.withoutCookies
  rw [h.headers, Headers.has]
  cases hcookie : request.headers.get (js "cookie") with
  | none =>
    rw [if_neg (by rw [Option.isSome_none]; exact Bool.false_ne_true)]
    exact ⟨h.headers ▸ hcookie, h.method, h.url, h.bytes, h.headers.trans (Headers.delete_of_get hcookie).symm⟩
  | some cookies =>
    rw [if_pos (Option.isSome_some)]
    exact ⟨Headers.get_delete _ _, h.method, h.url, (Request.bytes_remade _ _ _).trans h.bytes, rfl⟩

theorem Authenticated.protectedWithout (h : Authenticated request route c)
    (hnoAmbient : ∀ matched, route = some matched → NoAmbient request matched) :
    Protected rt deps request route c.withoutCookies := by
  have hspec := withoutCookies_spec request h.toCarried
  refine ⟨h.sameRoute, ?_, fun _ _ _ => hspec⟩
  rintro matched rfl _ (hsession | hcookie)
  · obtain ⟨hauthorization, haudience⟩ := h.session hsession
    exact ((hnoAmbient matched rfl).elim (fun hheader => hheader hauthorization) fun haud => haud haudience).elim
  · exact absurd hspec.cookie hcookie

theorem browserFacing_next {options : CrossSiteOptions} {headers : Headers}
    (h : browserFacing (R := R) rt options headers c = .next c') :
    c' = c ∧ (isMutation rt c.raw.method = true →
      headers.get (js "origin") = some options.expectedOrigin ∧
      (headers.get (js "sec-fetch-site") = none ∨ headers.get (js "sec-fetch-site") = some (js "same-origin")) ∧
      (mediaTypeOf rt headers = some JSON_MEDIA_TYPE ∨
        c.route.bind (·.acceptsMultipart) = some true ∧ mediaTypeOf rt headers = some MULTIPART_MEDIA_TYPE)) := by
  unfold browserFacing at h
  by_cases hmutation : (!isMutation rt c.raw.method) = true
  · rw [if_pos hmutation] at h
    cases h
    refine ⟨rfl, fun htrue => ?_⟩
    rw [htrue] at hmutation
    cases hmutation
  · rw [if_neg hmutation] at h
    cases horigin : headers.get (js "origin") with
    | none =>
      rw [horigin] at h
      cases h
    | some origin =>
      rw [horigin] at h
      dsimp only at h
      unfold refuse at h
      split_ifs at h with hother hsite hmedia
      cases h
      refine ⟨rfl, fun _ => ⟨by rw [not_not.mp hother], ?_, ?_⟩⟩
      · cases hheader : headers.get (js "sec-fetch-site") with
        | none => exact .inl rfl
        | some site =>
          rw [hheader, Option.any_some, bne_iff_ne, not_not] at hsite
          exact .inr (by rw [hsite])
      · by_cases hjson : mediaTypeOf rt headers = some JSON_MEDIA_TYPE
        · exact .inl hjson
        · exact .inr (not_not.mp fun hnot => hmedia ⟨hjson, hnot⟩)

theorem marketingForm_next {options : CrossSiteOptions} {matched : MatchedRoute} {headers : Headers}
    (h : marketingForm (R := R) rt options matched headers c = .next c') : c' = c := by
  unfold marketingForm refuse at h
  dsimp only at h
  split_ifs at h with horigin hmedia
  cases hverdict : options.verify (headers.get CHALLENGE_SOLUTION_HEADER) with
  | accepted _ =>
    rw [hverdict] at h
    cases h
    rfl
  | refused =>
    rw [hverdict] at h
    cases h
  | failed =>
    rw [hverdict] at h
    cases h

theorem Authenticated.browserFacing (h : Authenticated request route c)
    (haudience : route.bind (·.operation.audience) = none) (hauthorization : request.headers.get (js "authorization") = none)
    (hnext : browserFacing (R := R) rt deps.crossSite c.raw.headers c = .next c') : Protected rt deps request route c' := by
  obtain ⟨rfl, hrule⟩ := browserFacing_next hnext
  rw [h.method, h.headers, h.sameRoute] at hrule
  refine ⟨h.sameRoute, ?_, ?_⟩
  · rintro matched rfl hmutation _
    obtain ⟨horigin, hsite, hmedia⟩ := hrule hmutation
    exact ⟨hauthorization, haudience, horigin, hsite, hmedia⟩
  · rintro matched rfl (hheader | haud)
    · exact absurd hauthorization hheader
    · exact absurd haudience haud

/-- A route with no audience, whatever the `Authorization` header. -/
theorem Authenticated.byAuthorization (h : Authenticated request route c)
    (haudience : route.bind (·.operation.audience) = none)
    (hnext : byAuthorization (R := R) rt deps.crossSite c = .next c') : Protected rt deps request route c' := by
  have hheader : c.raw.headers.get (js "authorization") = request.headers.get (js "authorization") := by rw [h.headers]
  unfold Http.byAuthorization at hnext
  rw [hheader] at hnext
  cases hauthorization : request.headers.get (js "authorization") with
  | none =>
    rw [hauthorization] at hnext
    exact h.browserFacing haudience hauthorization hnext
  | some authorization =>
    rw [hauthorization] at hnext
    have hwithout : Protected rt deps request route c.withoutCookies :=
      h.protectedWithout fun _ _ => .inl (by rw [hauthorization]; exact Option.some_ne_none _)
    dsimp only at hnext
    split_ifs at hnext with hbearer
    · cases hnext
      exact hwithout
    · rw [(browserFacing_next hnext).1]
      exact hwithout

/-- **Behind the cross-site stage a context is protected.** -/
theorem createCrossSiteProtection_protected (h : Authenticated request route c)
    (hnext : createCrossSiteProtection (R := R) rt deps.crossSite c = .next c') : Protected rt deps request route c' := by
  unfold createCrossSiteProtection refuse at hnext
  split_ifs at hnext with hpreflight
  rw [h.sameRoute] at hnext
  have hdeclared (audience : Audience) (haudience : route.bind (·.operation.audience) = some audience) :
      ∀ matched, route = some matched → NoAmbient request matched := by
    rintro matched rfl
    exact .inr fun hnone => by cases haudience.symm.trans hnone
  cases haudience : route.bind (·.operation.audience) with
  | none =>
    rw [haudience] at hnext
    exact h.byAuthorization haudience hnext
  | some audience =>
    rw [haudience] at hnext
    cases audience with
    | machine =>
      cases hnext
      exact h.protectedWithout (hdeclared _ haudience)
    | marketingForm =>
      obtain ⟨matched, rfl⟩ : ∃ matched, route = some matched := by
        cases route with
        | none => cases haudience
        | some matched => exact ⟨matched, rfl⟩
      rw [marketingForm_next hnext]
      exact h.protectedWithout (hdeclared _ haudience)

/-! ## The whole chain -/

theorem stagesOfCredentials_leads :
    Leads (Arrived request route) (stagesOfCredentials rt deps) (Protected rt deps request route) := by
  refine Leads.cons (Q := Authenticated request route) ?_ (Leads.cons ?_ Leads.nil)
  · refine Leads.cons (Q := Authenticated request route) ?_ (Leads.cons ?_ Leads.nil)
    · exact fun _ _ harrived hnext => createAuthentication_authenticated harrived hnext
    · intro between after hbetween hnext
      rw [createAccessModeCheck_next hnext]
      exact hbetween
  · exact fun _ _ hauthenticated hnext => createCrossSiteProtection_protected hauthenticated hnext

theorem stagesOfHandling_leads :
    Leads (Protected rt deps request route) (stagesOfHandling deps) (Protected rt deps request route) := by
  refine Leads.run fun stage hstage c c' hprotected hnext => ?_
  obtain ⟨gate, rfl⟩ : ∃ gate : Gate V R, stage = gate.stage := by
    simp only [stagesOfHandling, List.mem_cons, List.not_mem_nil, or_false] at hstage
    rcases hstage with rfl | rfl | rfl | rfl | rfl <;> exact ⟨_, rfl⟩
  obtain ⟨hraw, hroute, hprincipal⟩ := Gate.stage_next hnext
  exact hprotected.of_eq hraw hroute hprincipal

/-- What the chain hands to a handler is protected. -/
theorem protected_of_handled {vars : V} {matched : MatchedRoute} (h : serve rt deps request route vars = .handled c matched) :
    Protected rt deps request route c ∧ c.route = some matched := by
  have hleads : Leads (Arrived request route) (requestStages rt deps) (Protected rt deps request route) :=
    stagesOfArrival_leads.append (stagesOfCredentials_leads.append stagesOfHandling_leads)
  have harrived : Arrived request route ({ raw := request, route := route, vars := vars } : Context V) :=
    ⟨⟨rfl, rfl, rfl, rfl, rfl⟩, rfl⟩
  unfold serve at h
  cases hrun : run (requestStages rt deps) { raw := request, route := route, vars := vars } with
  | answer answer =>
    rw [hrun] at h
    cases h
  | next reached =>
    rw [hrun] at h
    dsimp only at h
    cases hmatched : reached.route with
    | none =>
      rw [hmatched] at h
      cases h
    | some found =>
      rw [hmatched] at h
      cases h
      exact ⟨hleads _ _ harrived hrun, hmatched⟩

end

/-- **Cross-site protection over the chain.** Whatever the other stages, the authenticators and the challenge answer: the
handler of a mutation that has a session principal, or can read a cookie, serves a request of the application itself; and a
request with an `Authorization` header, or to a route with an audience, reaches its handler without its cookies and
otherwise as it was. -/
theorem crossSite (vars : V) (c : Context V) (matched : MatchedRoute)
    (h : serve rt deps request route vars = .handled c matched) :
    (isMutation rt request.method = true → c.hasSession ∨ c.raw.headers.get (js "cookie") ≠ none →
      FromTheApplication rt deps.crossSite matched request) ∧
    (NoAmbient request matched → WithoutCookies request c.raw) := by
  obtain ⟨hprotected, hmatched⟩ := protected_of_handled h
  rw [hprotected.sameRoute] at hmatched
  exact ⟨hprotected.mutation matched hmatched, hprotected.noAmbient matched hmatched⟩

/-- Upper-case methods, lower-case media types, and a body that is JSON. -/
def plainRuntime : Runtime := ⟨List.map asciiLower, id, id, fun _ => true⟩

/-- A chain whose other stages let everything pass, with an authenticator of each kind. -/
def openChain : ChainDependencies Unit Unit where
  requestContext _ := (none, ())
  securityHeaders _ := .inr ()
  ipRateLimiting _ := .inr ()
  authenticators := [.bearer fun _ _ => .accepted ⟨7, 1⟩, .cookie fun _ => .accepted ⟨7, 2⟩]
  accountAccessMode _ := .accepted .full
  crossSite := ⟨js "https://app", fun _ => .accepted ()⟩
  rateLimiting _ := .inr ()
  tenantResolution _ := .inr ()
  validation _ := .inr ()
  authorization _ := .inr ()
  idempotency _ := .inr ()

def createRoute : MatchedRoute := { operation := { operationId := js "createTag", auth := .member, rate := .write } }

/-- A mutation of the application's own page. -/
def ownRequest : Request :=
  ⟨js "POST", js "/api/tags", [(js "origin", js "https://app"), (js "content-type", js "application/json"),
    (js "cookie", js "s=1")], some [0x7B, 0x7D]⟩

/-- A mutation with a token and a cookie, from anywhere. -/
def tokenRequest : Request :=
  ⟨js "POST", js "/api/tags", [(js "authorization", js "Bearer t"), (js "content-type", js "application/json"),
    (js "cookie", js "s=1")], some [0x7B, 0x7D]⟩

def ownContext : Context Unit where
  raw := ownRequest
  route := some createRoute
  principal := some (.session ⟨7, 2⟩)
  vars := ()

def tokenContext : Context Unit where
  raw := { tokenRequest with headers := tokenRequest.headers.delete (js "cookie") }
  route := some createRoute
  principal := some (.apiToken ⟨7, 1⟩)
  vars := ()

theorem crossSite_openChain :
    FromTheApplication plainRuntime openChain.crossSite createRoute ownRequest ∧
      WithoutCookies tokenRequest tokenContext.raw := by
  have hown : serve plainRuntime openChain ownRequest (some createRoute) () = .handled ownContext createRoute := rfl
  have htoken : serve plainRuntime openChain tokenRequest (some createRoute) () = .handled tokenContext createRoute := rfl
  have hsession : ownContext.hasSession := ⟨_, rfl⟩
  exact ⟨(crossSite plainRuntime openChain ownRequest (some createRoute) () _ _ hown).1 rfl (.inl hsession),
    (crossSite plainRuntime openChain tokenRequest (some createRoute) () _ _ htoken).2 (.inl (by decide))⟩

end SlugBase.Http
