import SlugBase.Lib.Double
import SlugBase.Lib.Json
import SlugBase.Lib.Sql
import Mathlib.Tactic.Tauto
import Mathlib.Data.Rat.Floor
import Mathlib.Algebra.Order.Ring.Rat

/-!
# ID tokens

The validation of an ID token: its signature under the provider's keys, then its claims.

* `IdTokenRuntime`: JSON, base64url, keys and the verification of a signature;
* `verifyIdToken`: the claims that the sign-in uses, or a refusal;
* `Accepted`: what an accepted token has been checked for;
* **`verifyIdToken_ok_iff`**: a token is answered exactly when it is accepted.

Numbers are doubles: what `JSON.parse` reads them as, and the limits with every step rounded.
-/

namespace SlugBase.Identity

open JavaScript JavaScript.Double Relational

/-! ## Tokens -/

/-- A number of a JSON text, a double. -/
inductive JsNumber
  | finite (value : ℚ)
  | infinite (negative : Bool)
deriving DecidableEq

abbrev Value := Json JsNumber

/-- `Readonly<Record<string, unknown>>`. -/
abbrev Claims := JsonObject JsNumber

/-- The fixed words of a refusal. -/
inductive IdTokenRefusal
  | malformed
  | algorithm
  | key
  | signature
  | issuer
  | audience
  | nonce
  | expired
  | notYetValid
  | authTime
  | subject
deriving DecidableEq, Repr

/-- `IdTokenError`. -/
structure IdTokenError where
  refusal : IdTokenRefusal
  unknownKeyId : Bool := false
deriving DecidableEq, Repr

/-- `IdTokenExpectation`. -/
structure IdTokenExpectation where
  issuer : JsString
  clientId : JsString
  nonce : JsString
  keys : List Claims
  now : ℚ
  authenticatedSince : Option ℚ

/-- What a verified token asserts. -/
structure VerifiedIdToken where
  subject : JsString
  email : Option JsString
  emailVerified : Bool
  name : Option JsString
deriving DecidableEq

def CLOCK_SKEW_SECONDS : ℚ := 60

/-- `now / 1000`. -/
def IdTokenExpectation.nowSeconds (expected : IdTokenExpectation) : ℚ := nearest (expected.now / 1000)

/-- `nowSeconds - CLOCK_SKEW_SECONDS`. -/
def IdTokenExpectation.expiryLimit (expected : IdTokenExpectation) : ℚ := nearest (expected.nowSeconds - CLOCK_SKEW_SECONDS)

/-- `nowSeconds + CLOCK_SKEW_SECONDS`. -/
def IdTokenExpectation.issueLimit (expected : IdTokenExpectation) : ℚ := nearest (expected.nowSeconds + CLOCK_SKEW_SECONDS)

/-- `Math.floor(authenticatedSince / 1000) - CLOCK_SKEW_SECONDS`. -/
def authTimeLimit (since : ℚ) : ℚ := nearest (⌊nearest (since / 1000)⌋ - CLOCK_SKEW_SECONDS)

def SUBJECT_MAX_LENGTH : ℕ := 255
def NAME_MAX_LENGTH : ℕ := 100

inductive KeyType
  | rsa
  | ec
  | okp
deriving DecidableEq, Repr

def KeyType.text : KeyType → JsString
  | .rsa => js "RSA"
  | .ec => js "EC"
  | .okp => js "OKP"

structure Algorithm where
  keyType : KeyType
  curve : Option JsString := none
  digest : Option JsString
  pss : Bool := false
deriving DecidableEq

/-- `ALGORITHMS`. -/
def ALGORITHMS : List (JsString × Algorithm) :=
  [(js "RS256", { keyType := .rsa, digest := some (js "sha256") }),
    (js "RS384", { keyType := .rsa, digest := some (js "sha384") }),
    (js "RS512", { keyType := .rsa, digest := some (js "sha512") }),
    (js "PS256", { keyType := .rsa, digest := some (js "sha256"), pss := true }),
    (js "PS384", { keyType := .rsa, digest := some (js "sha384"), pss := true }),
    (js "PS512", { keyType := .rsa, digest := some (js "sha512"), pss := true }),
    (js "ES256", { keyType := .ec, curve := some (js "P-256"), digest := some (js "sha256") }),
    (js "ES384", { keyType := .ec, curve := some (js "P-384"), digest := some (js "sha384") }),
    (js "ES512", { keyType := .ec, curve := some (js "P-521"), digest := some (js "sha512") }),
    (js "EdDSA", { keyType := .okp, curve := some (js "Ed25519"), digest := none })]

/-- How a signature is verified. -/
inductive Scheme
  | plain
  | pss
  | ieeeP1363
deriving DecidableEq

/-- The platform: base64url, JSON of bytes that are UTF-8, keys of a key set, and `verify` (none when it throws). -/
structure IdTokenRuntime where
  fromBase64url : JsString → List UInt8
  toBase64url : List UInt8 → JsString
  parse : List UInt8 → Option Value
  KeyObject : Type
  createPublicKey : Claims → Option KeyObject
  verify : Scheme → Option JsString → List UInt8 → KeyObject → List UInt8 → Option Bool

variable (rt : IdTokenRuntime)

/-- A check that refuses. -/
def refuse (fails : Bool) (error : IdTokenError) : Except IdTokenError Unit := if fails then .error error else .ok ()

/-- `decodeSegment`. -/
def decodeSegment (segment : JsString) : Except IdTokenError (List UInt8) :=
  let bytes := rt.fromBase64url segment
  if segment = [] ∨ rt.toBase64url bytes ≠ segment then .error { refusal := .malformed } else .ok bytes

/-- `decodeObject`. -/
def decodeObject (segment : JsString) : Except IdTokenError Claims := do
  let bytes ← decodeSegment rt segment
  match rt.parse bytes with
  | some (.object members) => return members
  | _ => throw { refusal := .malformed }

/-- Whether a member is left out or is a text. -/
def absentOr (member : Option Value) (text : JsString) : Bool :=
  match member with
  | none => true
  | some value => value.strictEq (.text text)

/-- Whether a member is a text. -/
def isText (member : Option Value) (text : JsString) : Bool := member.any fun value => value.strictEq (.text text)

/-- Whether a key of the set may have signed a token with the header. -/
def keyFits (header : Claims) (name : JsString) (algorithm : Algorithm) (key : Claims) : Bool :=
  (match Json.member header (js "kid") with
    | none => true
    | some kid => (Json.member key (js "kid")).any fun value => value.strictEq kid) &&
  absentOr (Json.member key (js "use")) (js "sig") && absentOr (Json.member key (js "alg")) name &&
  isText (Json.member key (js "kty")) algorithm.keyType.text &&
  (match algorithm.curve with
    | none => true
    | some curve => isText (Json.member key (js "crv")) curve)

/-- `candidateKeys`. -/
def candidateKeys (keys : List Claims) (header : Claims) (name : JsString) (algorithm : Algorithm) : List rt.KeyObject :=
  (keys.filter (keyFits header name algorithm)).filterMap rt.createPublicKey

/-- `Buffer.from(input, "ascii")`. -/
def asciiBytes (input : JsString) : List UInt8 := input.map UInt16.toUInt8

/-- How an algorithm verifies. -/
def Algorithm.scheme (algorithm : Algorithm) : Scheme :=
  if algorithm.keyType = .ec then .ieeeP1363 else if algorithm.pss then .pss else .plain

/-- `signatureHolds`. -/
def signatureHolds (input : JsString) (signature : List UInt8) (algorithm : Algorithm) (key : rt.KeyObject) : Bool :=
  (rt.verify algorithm.scheme algorithm.digest (asciiBytes input) key signature).getD false

/-- `audienceHolds`. -/
def audienceHolds (aud azp : Option Value) (clientId : JsString) : Bool :=
  match aud with
  | some (.text text) => decide (text = clientId) && absentOr azp clientId
  | some (.array items) =>
    items.any (fun item => item.strictEq (.text clientId)) &&
      (if items.length = 1 then absentOr azp clientId else isText azp clientId)
  | _ => false

/-- `seconds`. -/
def seconds (claim : Option Value) : Option ℚ :=
  match claim with
  | some (.number (.finite value)) => some value
  | _ => none

/-- `ALGORITHMS[header.alg]`. -/
def algorithmOf (header : Claims) : Except IdTokenError (JsString × Algorithm) :=
  match Json.member header (js "alg") with
  | some (.text name) =>
    match ALGORITHMS.lookup name with
    | some algorithm => .ok (name, algorithm)
    | none => .error { refusal := .algorithm }
  | _ => .error { refusal := .algorithm }

/-- Whether the token names a key id that the key set does not hold. -/
def unknownKeyId (keys : List Claims) (header : Claims) : Bool :=
  match Json.member header (js "kid") with
  | some (.text kid) => !keys.any fun key => isText (Json.member key (js "kid")) kid
  | _ => false

/-- A text of a claim that is not empty. -/
def textClaim (claim : Option Value) : Option JsString :=
  match claim with
  | some (.text text) => if text = [] then none else some text
  | _ => none

/-- What is answered of the claims. -/
def answerOf (claims : Claims) (subject : JsString) : VerifiedIdToken :=
  let verified := Json.member claims (js "email_verified")
  { subject
    email := textClaim (Json.member claims (js "email"))
    emailVerified := (textClaim (Json.member claims (js "email"))).isSome &&
      (match verified with
        | some (.bool flag) => flag
        | some (.text text) => decide (text = js "true")
        | _ => false)
    name := match Json.member claims (js "name") with
      | some (.text text) => if trim text = [] then none else some (takePoints NAME_MAX_LENGTH (trim text))
      | _ => none }

/-- The subject of the claims. -/
def subjectOf (claims : Claims) : Except IdTokenError JsString :=
  match textClaim (Json.member claims (js "sub")) with
  | some subject => if SUBJECT_MAX_LENGTH < subject.length then .error { refusal := .subject } else .ok subject
  | none => .error { refusal := .subject }

/-- Whether a time is after another. -/
def isAfter (time : Option ℚ) (limit : ℚ) : Bool := time.any fun value => decide (limit < value)

/-- The check of `auth_time` against the start of a re-authentication. -/
def checkAuthTime (authenticatedSince : Option ℚ) (claim : Option Value) : Except IdTokenError Unit :=
  match authenticatedSince, claim with
  | some since, some claim =>
    match seconds (some claim) with
    | none => .error { refusal := .malformed }
    | some authTime => refuse (decide (authTime < authTimeLimit since)) { refusal := .authTime }
  | _, _ => .ok ()

/-- The checks of `verifyIdToken` on the claims, and the answer. -/
def checkClaims (claims : Claims) (expected : IdTokenExpectation) : Except IdTokenError VerifiedIdToken := do
  refuse (!isText (Json.member claims (js "iss")) expected.issuer) { refusal := .issuer }
  refuse (!audienceHolds (Json.member claims (js "aud")) (Json.member claims (js "azp")) expected.clientId) { refusal := .audience }
  refuse (!isText (Json.member claims (js "nonce")) expected.nonce) { refusal := .nonce }
  let expires := seconds (Json.member claims (js "exp"))
  refuse (!isAfter expires expected.expiryLimit) { refusal := .expired }
  let iat := seconds (Json.member claims (js "iat"))
  let nbf := seconds (Json.member claims (js "nbf"))
  refuse ((Json.member claims (js "iat")).isSome && iat.isNone || (Json.member claims (js "nbf")).isSome && nbf.isNone)
    { refusal := .malformed }
  refuse (isAfter iat expected.issueLimit || isAfter nbf expected.issueLimit)
    { refusal := .notYetValid }
  checkAuthTime expected.authenticatedSince (Json.member claims (js "auth_time"))
  let subject ← subjectOf claims
  return answerOf claims subject

/-- `token.split(".")` of three parts. -/
def splitToken (token : JsString) : Except IdTokenError (JsString × JsString × JsString) :=
  match token.splitOn 0x2E with
  | [encodedHeader, encodedPayload, encodedSignature] => .ok (encodedHeader, encodedPayload, encodedSignature)
  | _ => .error { refusal := .malformed }

/-- `verifyIdToken`. -/
def verifyIdToken (token : JsString) (expected : IdTokenExpectation) : Except IdTokenError VerifiedIdToken := do
  let (encodedHeader, encodedPayload, encodedSignature) ← splitToken token
  let header ← decodeObject rt encodedHeader
  let claims ← decodeObject rt encodedPayload
  refuse (Json.member header (js "crit")).isSome { refusal := .malformed }
  let (name, algorithm) ← algorithmOf header
  let signature ← decodeSegment rt encodedSignature
  let candidates := candidateKeys rt expected.keys header name algorithm
  refuse candidates.isEmpty { refusal := .key, unknownKeyId := unknownKeyId expected.keys header }
  refuse (!candidates.any (signatureHolds rt (encodedHeader ++ js "." ++ encodedPayload) signature algorithm))
    { refusal := .signature }
  checkClaims claims expected

/-! ## Accepted tokens -/

/-- A segment is the base64url of an object's JSON. -/
def Encodes (segment : JsString) (object : Claims) : Prop :=
  segment ≠ [] ∧ rt.toBase64url (rt.fromBase64url segment) = segment ∧
    rt.parse (rt.fromBase64url segment) = some (.object object)

/-- A key of the set is meant for signatures of the header's algorithm, and is the key that the header names. -/
structure MaySign (header : Claims) (name : JsString) (algorithm : Algorithm) (key : Claims) : Prop where
  kid : ∀ kid, Json.member header (js "kid") = some kid → kid.isScalar = true ∧ Json.member key (js "kid") = some kid
  use : Json.member key (js "use") = none ∨ Json.member key (js "use") = some (.text (js "sig"))
  alg : Json.member key (js "alg") = none ∨ Json.member key (js "alg") = some (.text name)
  kty : Json.member key (js "kty") = some (.text algorithm.keyType.text)
  crv : ∀ curve, algorithm.curve = some curve → Json.member key (js "crv") = some (.text curve)

/-- A signature verifies under a key of the set, by an algorithm of the list that the header names. -/
def Signed (keys : List Claims) (header : Claims) (input encodedSignature : JsString) : Prop :=
  ∃ name algorithm key keyObject,
    Json.member header (js "alg") = some (.text name) ∧ ALGORITHMS.lookup name = some algorithm ∧
    key ∈ keys ∧ MaySign header name algorithm key ∧ rt.createPublicKey key = some keyObject ∧
    encodedSignature ≠ [] ∧ rt.toBase64url (rt.fromBase64url encodedSignature) = encodedSignature ∧
    rt.verify algorithm.scheme algorithm.digest (asciiBytes input) keyObject (rt.fromBase64url encodedSignature) = some true

/-- The audience is the client alone, or names it as the authorised party. -/
def ForClient (aud azp : Option Value) (clientId : JsString) : Prop :=
  aud = some (.text clientId) ∧ (azp = none ∨ azp = some (.text clientId)) ∨
    ∃ items, aud = some (.array items) ∧ .text clientId ∈ items ∧
      (azp = some (.text clientId) ∨ azp = none ∧ items.length = 1)

/-- The claims are of the issuer, for the client and the request, and of the time of the check. -/
structure Current (claims : Claims) (expected : IdTokenExpectation) : Prop where
  issuer : Json.member claims (js "iss") = some (.text expected.issuer)
  audience : ForClient (Json.member claims (js "aud")) (Json.member claims (js "azp")) expected.clientId
  nonce : Json.member claims (js "nonce") = some (.text expected.nonce)
  expires : ∃ time, Json.member claims (js "exp") = some (.number (.finite time)) ∧
    expected.expiryLimit < time
  issued : ∀ claim, Json.member claims (js "iat") = some claim →
    ∃ time, claim = .number (.finite time) ∧ time ≤ expected.issueLimit
  notBefore : ∀ claim, Json.member claims (js "nbf") = some claim →
    ∃ time, claim = .number (.finite time) ∧ time ≤ expected.issueLimit
  authenticated : ∀ since claim, expected.authenticatedSince = some since → Json.member claims (js "auth_time") = some claim →
    ∃ time, claim = .number (.finite time) ∧ authTimeLimit since ≤ time

/-- What an accepted token has been checked for, and what is answered of it. -/
def Accepted (token : JsString) (expected : IdTokenExpectation) (verified : VerifiedIdToken) : Prop :=
  ∃ encodedHeader encodedPayload encodedSignature header claims subject,
    token.splitOn 0x2E = [encodedHeader, encodedPayload, encodedSignature] ∧
    Encodes rt encodedHeader header ∧ Encodes rt encodedPayload claims ∧ Json.member header (js "crit") = none ∧
    Signed rt expected.keys header (encodedHeader ++ js "." ++ encodedPayload) encodedSignature ∧
    Current claims expected ∧
    Json.member claims (js "sub") = some (.text subject) ∧ subject ≠ [] ∧ subject.length ≤ SUBJECT_MAX_LENGTH ∧
    verified = answerOf claims subject

/-! ## The checks, one by one -/

theorem bind_ok_iff {ε α β : Type} {x : Except ε α} {f : α → Except ε β} {b : β} :
    (x >>= f) = .ok b ↔ ∃ a, x = .ok a ∧ f a = .ok b := by
  refine ⟨ok_of_bind, ?_⟩
  rintro ⟨a, rfl, h⟩
  exact h

@[simp] theorem refuse_ok_iff {fails : Bool} {error : IdTokenError} {u : Unit} :
    refuse fails error = .ok u ↔ fails = false := by
  cases fails <;> simp [refuse]

theorem isText_iff {member : Option Value} {text : JsString} : isText member text = true ↔ member = some (.text text) := by
  cases member with
  | none => simp [isText]
  | some value => simp [isText, Json.strictEq_text_iff]

theorem absentOr_iff {member : Option Value} {text : JsString} :
    absentOr member text = true ↔ member = none ∨ member = some (.text text) := by
  cases member with
  | none => simp [absentOr]
  | some value => simp [absentOr, Json.strictEq_text_iff]

theorem decodeSegment_ok_iff {segment : JsString} {bytes : List UInt8} :
    decodeSegment rt segment = .ok bytes ↔
      segment ≠ [] ∧ rt.toBase64url (rt.fromBase64url segment) = segment ∧ rt.fromBase64url segment = bytes := by
  unfold decodeSegment
  by_cases h : segment = [] ∨ rt.toBase64url (rt.fromBase64url segment) ≠ segment
  · simp only [if_pos h, reduceCtorEq, false_iff]
    tauto
  · simp only [if_neg h, Except.ok.injEq]
    tauto

theorem decodeObject_ok_iff {segment : JsString} {object : Claims} :
    decodeObject rt segment = .ok object ↔ Encodes rt segment object := by
  simp only [decodeObject, bind_ok_iff, decodeSegment_ok_iff, Encodes]
  constructor
  · rintro ⟨bytes, ⟨hne, hround, rfl⟩, h⟩
    refine ⟨hne, hround, ?_⟩
    split at h
    · rename_i members hparse
      cases h
      exact hparse
    · cases h
  · rintro ⟨hne, hround, hparse⟩
    refine ⟨_, ⟨hne, hround, rfl⟩, ?_⟩
    rw [hparse]
    rfl

theorem algorithmOf_ok_iff {header : Claims} {name : JsString} {algorithm : Algorithm} :
    algorithmOf header = .ok (name, algorithm) ↔
      Json.member header (js "alg") = some (.text name) ∧ ALGORITHMS.lookup name = some algorithm := by
  unfold algorithmOf
  split
  · rename_i found hfound
    cases hlookup : ALGORITHMS.lookup found with
    | none =>
      simp only [hfound, Option.some.injEq, Json.text.injEq, reduceCtorEq, false_iff, not_and]
      rintro rfl
      simp [hlookup]
    | some other =>
      simp only [hfound, Option.some.injEq, Json.text.injEq, Except.ok.injEq, Prod.mk.injEq]
      constructor
      · rintro ⟨rfl, rfl⟩
        exact ⟨rfl, hlookup⟩
      · rintro ⟨rfl, h⟩
        exact ⟨rfl, Option.some.inj (hlookup.symm.trans h)⟩
  · rename_i hother
    simp only [reduceCtorEq, false_iff, not_and]
    intro h
    exact absurd h (hother name)

theorem keyFits_iff {header : Claims} {name : JsString} {algorithm : Algorithm} {key : Claims} :
    keyFits header name algorithm key = true ↔ MaySign header name algorithm key := by
  have hkid : (match Json.member header (js "kid") with
      | none => true
      | some kid => (Json.member key (js "kid")).any fun value => value.strictEq kid) = true ↔
      ∀ kid, Json.member header (js "kid") = some kid → kid.isScalar = true ∧ Json.member key (js "kid") = some kid := by
    cases Json.member header (js "kid") with
    | none => simp
    | some kid =>
      cases Json.member key (js "kid") with
      | none => simp
      | some value =>
        simp only [Option.any_some, Json.strictEq_iff, Option.some.injEq, forall_eq']
        constructor
        · rintro ⟨rfl, h⟩
          exact ⟨h, rfl⟩
        · rintro ⟨h, rfl⟩
          exact ⟨rfl, h⟩
  have hcrv : (match algorithm.curve with
      | none => true
      | some curve => isText (Json.member key (js "crv")) curve) = true ↔
      ∀ curve, algorithm.curve = some curve → Json.member key (js "crv") = some (.text curve) := by
    cases algorithm.curve with
    | none => simp
    | some curve => simp [isText_iff]
  simp only [keyFits, Bool.and_eq_true, absentOr_iff, isText_iff]
  rw [hkid, hcrv]
  constructor
  · rintro ⟨⟨⟨⟨kid, use⟩, alg⟩, kty⟩, crv⟩
    exact ⟨kid, use, alg, kty, crv⟩
  · rintro ⟨kid, use, alg, kty, crv⟩
    exact ⟨⟨⟨⟨kid, use⟩, alg⟩, kty⟩, crv⟩

theorem mem_candidateKeys {keys : List Claims} {header : Claims} {name : JsString} {algorithm : Algorithm}
    {keyObject : rt.KeyObject} :
    keyObject ∈ candidateKeys rt keys header name algorithm ↔
      ∃ key ∈ keys, MaySign header name algorithm key ∧ rt.createPublicKey key = some keyObject := by
  simp only [candidateKeys, List.mem_filterMap, List.mem_filter, keyFits_iff, and_assoc]

theorem signatureHolds_iff {input : JsString} {signature : List UInt8} {algorithm : Algorithm} {key : rt.KeyObject} :
    signatureHolds rt input signature algorithm key = true ↔
      rt.verify algorithm.scheme algorithm.digest (asciiBytes input) key signature = some true := by
  unfold signatureHolds
  cases rt.verify algorithm.scheme algorithm.digest (asciiBytes input) key signature <;> simp

theorem audienceHolds_iff {aud azp : Option Value} {clientId : JsString} :
    audienceHolds aud azp clientId = true ↔ ForClient aud azp clientId := by
  unfold audienceHolds ForClient
  split
  · rename_i text
    simp [absentOr_iff]
  · rename_i items
    have hmem : items.any (fun item => item.strictEq (.text clientId)) = true ↔ .text clientId ∈ items := by
      simp [List.any_eq_true, Json.strictEq_text_iff]
    simp only [Bool.and_eq_true, hmem]
    by_cases hone : items.length = 1
    · simp only [if_pos hone, absentOr_iff]
      simp [hone, or_comm]
    · simp only [if_neg hone, isText_iff]
      simp [hone]
  · rename_i htext harray
    simp only [Bool.false_eq_true, false_iff, not_or, not_and, not_exists]
    exact ⟨fun h => absurd h (htext clientId), fun items h => absurd h (harray items)⟩

theorem seconds_eq_some {claim : Option Value} {time : ℚ} :
    seconds claim = some time ↔ claim = some (.number (.finite time)) := by
  unfold seconds
  split <;> simp_all

theorem expires_iff {claim : Option Value} {limit : ℚ} :
    isAfter (seconds claim) limit = true ↔ ∃ time, claim = some (.number (.finite time)) ∧ limit < time := by
  simp only [isAfter, Option.any_eq_true, seconds_eq_some, decide_eq_true_eq]

/-- A time that may be left out is a number, and no later than the limit. -/
theorem early_iff {claim : Option Value} {limit : ℚ} :
    (claim.isSome && (seconds claim).isNone) = false ∧ isAfter (seconds claim) limit = false ↔
      ∀ value, claim = some value → ∃ time, value = .number (.finite time) ∧ time ≤ limit := by
  cases claim with
  | none => simp [seconds, isAfter]
  | some value =>
    cases hseconds : seconds (some value) with
    | none =>
      simp only [Option.isSome_some, Option.isNone_none, Bool.and_self, Bool.true_eq_false, false_and, Option.some.injEq,
        forall_eq', false_iff, not_exists, not_and]
      rintro time rfl
      cases hseconds
    | some time =>
      have hvalue := Option.some.inj (seconds_eq_some.mp hseconds)
      subst hvalue
      simp [isAfter]

theorem subjectOf_ok_iff {claims : Claims} {subject : JsString} :
    subjectOf claims = .ok subject ↔
      Json.member claims (js "sub") = some (.text subject) ∧ subject ≠ [] ∧ subject.length ≤ SUBJECT_MAX_LENGTH := by
  unfold subjectOf textClaim
  cases hsub : Json.member claims (js "sub") with
  | none => simp
  | some value =>
    cases value with
    | text text =>
      by_cases hempty : text = []
      · simp only [hempty, if_true, reduceCtorEq, Option.some.injEq, Json.text.injEq, false_iff, not_and]
        rintro rfl h
        exact absurd rfl h
      · by_cases hlong : SUBJECT_MAX_LENGTH < text.length
        · simp only [if_neg hempty, if_pos hlong, reduceCtorEq, Option.some.injEq, Json.text.injEq, false_iff, not_and,
            not_le]
          rintro rfl -
          exact hlong
        · simp only [if_neg hempty, if_neg hlong, Except.ok.injEq, Option.some.injEq, Json.text.injEq]
          constructor
          · rintro rfl
            exact ⟨rfl, hempty, Nat.le_of_not_lt hlong⟩
          · rintro ⟨h, -⟩
            exact h
    | _ => simp

theorem checkAuthTime_ok_iff {authenticatedSince : Option ℚ} {claim : Option Value} {u : Unit} :
    checkAuthTime authenticatedSince claim = .ok u ↔
      ∀ since value, authenticatedSince = some since → claim = some value →
        ∃ time, value = .number (.finite time) ∧ authTimeLimit since ≤ time := by
  cases authenticatedSince with
  | none => simp [checkAuthTime]
  | some since =>
    cases claim with
    | none => simp [checkAuthTime]
    | some value =>
      cases hseconds : seconds (some value) with
      | none =>
        simp only [checkAuthTime, hseconds, reduceCtorEq, false_iff]
        intro h
        obtain ⟨time, rfl, -⟩ := h since value rfl rfl
        cases hseconds
      | some time =>
        have hvalue := Option.some.inj (seconds_eq_some.mp hseconds)
        subst hvalue
        simp only [checkAuthTime, hseconds, refuse_ok_iff, decide_eq_false_iff_not, not_lt, Option.some.injEq]
        constructor
        · rintro h since value rfl rfl
          exact ⟨time, rfl, h⟩
        · intro h
          obtain ⟨other, hother, hle⟩ := h since _ rfl rfl
          cases hother
          exact hle

/-- The checks on the claims pass for claims that are current and name a subject. -/
theorem checkClaims_ok_iff {claims : Claims} {expected : IdTokenExpectation} {verified : VerifiedIdToken} :
    checkClaims claims expected = .ok verified ↔
      Current claims expected ∧ ∃ subject, Json.member claims (js "sub") = some (.text subject) ∧ subject ≠ [] ∧
        subject.length ≤ SUBJECT_MAX_LENGTH ∧ verified = answerOf claims subject := by
  simp only [checkClaims, bind_ok_iff, refuse_ok_iff, Bool.not_eq_false', Bool.or_eq_false_iff, isText_iff,
    audienceHolds_iff, expires_iff, subjectOf_ok_iff, checkAuthTime_ok_iff, exists_const, pure, Except.pure,
    Except.ok.injEq]
  constructor
  · rintro ⟨issuer, audience, nonce, expires, ⟨hiat, hnbf⟩, ⟨hiat', hnbf'⟩, authenticated, subject, hsubject, rfl⟩
    exact ⟨⟨issuer, audience, nonce, expires, early_iff.mp ⟨hiat, hiat'⟩, early_iff.mp ⟨hnbf, hnbf'⟩, authenticated⟩,
      subject, hsubject.1, hsubject.2.1, hsubject.2.2, rfl⟩
  · rintro ⟨h, subject, hsub, hempty, hlong, rfl⟩
    obtain ⟨hiat, hiat'⟩ := early_iff.mpr h.issued
    obtain ⟨hnbf, hnbf'⟩ := early_iff.mpr h.notBefore
    exact ⟨h.issuer, h.audience, h.nonce, h.expires, ⟨hiat, hnbf⟩, ⟨hiat', hnbf'⟩, h.authenticated, subject,
      ⟨hsub, hempty, hlong⟩, rfl⟩

theorem splitToken_ok_iff {token encodedHeader encodedPayload encodedSignature : JsString} :
    splitToken token = .ok (encodedHeader, encodedPayload, encodedSignature) ↔
      token.splitOn 0x2E = [encodedHeader, encodedPayload, encodedSignature] := by
  unfold splitToken
  split
  · rename_i h
    simp [h]
  · rename_i h
    simp only [reduceCtorEq, false_iff]
    exact h _ _ _

theorem signed_iff {keys : List Claims} {header : Claims} {input encodedSignature : JsString} :
    Signed rt keys header input encodedSignature ↔
      ∃ name algorithm, algorithmOf header = .ok (name, algorithm) ∧ ∃ signature,
        decodeSegment rt encodedSignature = .ok signature ∧
        (candidateKeys rt keys header name algorithm).any (signatureHolds rt input signature algorithm) = true := by
  simp only [Signed, algorithmOf_ok_iff, decodeSegment_ok_iff, List.any_eq_true, mem_candidateKeys, signatureHolds_iff]
  constructor
  · rintro ⟨name, algorithm, key, keyObject, halg, hlookup, hkey, hfits, hobject, hempty, hround, hverify⟩
    exact ⟨name, algorithm, ⟨halg, hlookup⟩, _, ⟨hempty, hround, rfl⟩, keyObject, ⟨key, hkey, hfits, hobject⟩, hverify⟩
  · rintro ⟨name, algorithm, ⟨halg, hlookup⟩, _, ⟨hempty, hround, rfl⟩, keyObject, ⟨key, hkey, hfits, hobject⟩, hverify⟩
    exact ⟨name, algorithm, key, keyObject, halg, hlookup, hkey, hfits, hobject, hempty, hround, hverify⟩

/-- **A token is answered exactly when it is accepted, with the answer of its own claims.** The limits of the times are the
doubles nearest to sixty seconds before and after the clock. -/
theorem verifyIdToken_ok_iff (token : JsString) (expected : IdTokenExpectation) (verified : VerifiedIdToken) :
    verifyIdToken rt token expected = .ok verified ↔ Accepted rt token expected verified := by
  simp only [verifyIdToken, bind_ok_iff, Prod.exists, splitToken_ok_iff, decodeObject_ok_iff, refuse_ok_iff,
    Option.isSome_eq_false_iff, Option.isNone_iff_eq_none, Bool.not_eq_false', exists_const, checkClaims_ok_iff]
  constructor
  · rintro ⟨first, second, third, hsplit, header, hheader, claims, hclaims, hcrit, name, algorithm, halg, signature,
      hsignature, -, hany, hcurrent, subject, hsubject⟩
    exact ⟨first, second, third, header, claims, subject, hsplit, hheader, hclaims, hcrit,
      (signed_iff rt).mpr ⟨name, algorithm, halg, signature, hsignature, hany⟩, hcurrent, hsubject⟩
  · rintro ⟨first, second, third, header, claims, subject, hsplit, hheader, hclaims, hcrit, hsigned, hcurrent, hsubject⟩
    obtain ⟨name, algorithm, halg, signature, hsignature, hany⟩ := (signed_iff rt).mp hsigned
    refine ⟨first, second, third, hsplit, header, hheader, claims, hclaims, hcrit, name, algorithm, halg, signature,
      hsignature, ?_, hany, hcurrent, subject, hsubject⟩
    -- a list in which some key verifies is not empty
    obtain ⟨key, hkey, -⟩ := List.any_eq_true.mp hany
    cases hcandidates : candidateKeys rt expected.keys header name algorithm with
    | nil =>
      rw [hcandidates] at hkey
      cases hkey
    | cons first rest => rfl

end SlugBase.Identity
