import SlugBase.Lib.Transition
import Mathlib.Data.List.Chain
import Mathlib.Data.List.Infix
import Mathlib.Order.Basic

/-!
# The provider documents of the identity adapter

What `createOidcIdentity` keeps of a provider: its document and its keys, which are fetched when they are asked for,
kept for a time, and fetched again for a token that names an unknown key.

* `endpoint`, `discoverEndpoints`, `keysOf`: what the adapter accepts of a document and of a key set;
* `Provider`, `Provider.step`: the entry of a provider with the calls in flight, and one turn of the event loop;
* `KeptEntry`, **`KeptEntry.step`**: what every turn keeps; `AskedEntry`: what a call is given, by what there was when it asked;
* **`provider_sound`**: in every run a provider is asked for its document once at a time and not before the last answer is
  over, for its keys again once at a time and once in a minute, and callers get what a document of the issuer named.

A call is named by the number of calls before it, a fetch by the number of fetches of its kind before it. Two objects are
the same when their numbers are; what follows an answer of the network without waiting for another is one turn.
-/

namespace SlugBase.Identity

open Transition

/-! ## What is accepted of a document -/

/-- A value of a document: a text, an array with its items that are texts, or something else. -/
inductive Unknown
  | undefined
  | text (value : String)
  | list (items : List (Option String))
  | other

/-- The document of a provider, as far as the adapter reads it. -/
structure DiscoveryDocument where
  issuer : Unknown
  authorizationEndpoint : Unknown
  tokenEndpoint : Unknown
  jwksUri : Unknown
  tokenEndpointAuthMethodsSupported : Unknown

inductive TokenAuthMethod
  | clientSecretBasic
  | clientSecretPost

/-- What the URL parser makes of an absolute URL. -/
structure EndpointUrl where
  protocol : String
  hostname : String
  username : String
  password : String

/-- The URL parser, and whether the `kty` of a key is a text. -/
structure ProviderRuntime (κ : Type) where
  parseUrl : String → Option EndpointUrl
  hasKty : κ → Bool

/-- The configuration of a provider, and how long answers are kept. -/
structure ProviderConfig where
  issuerUrl : String
  cacheTtlMs : ℕ
  failureTtlMs : ℕ

/-- What the accepted document names. -/
structure ProviderEndpoints where
  issuer : String
  authorizationEndpoint : String
  tokenEndpoint : String
  jwksUri : String
  tokenAuthMethod : TokenAuthMethod

section

variable {κ : Type} (rt : ProviderRuntime κ) (cfg : ProviderConfig)

/-- An absolute `http` or `https` URL with a host, no credentials and no fragment; `http` only when the issuer is. -/
def endpoint (value : Unknown) (issuerIsHttps : Bool) : Option String :=
  match value with
  | .text text =>
    match rt.parseUrl text with
    | none => none
    | some url =>
      if text.toList.contains '#' then none
      else if (url.protocol = "https:" ∨ (url.protocol = "http:" ∧ issuerIsHttps = false)) ∧ url.hostname ≠ "" ∧
          url.username = "" ∧ url.password = "" then some text
      else none
  | _ => none

def tokenAuthMethodOf : Unknown → Option TokenAuthMethod
  | .undefined => some .clientSecretBasic
  | .list items =>
    if items.contains (some "client_secret_basic") then some .clientSecretBasic
    else if items.contains (some "client_secret_post") then some .clientSecretPost
    else none
  | _ => none

def isHttps (issuer : String) : Bool :=
  match rt.parseUrl issuer with
  | none => false
  | some url => decide (url.protocol = "https:")

/-- What `discover` makes of the document, before it fetches the keys; none when there is no document or it is refused. -/
def discoverEndpoints : Option DiscoveryDocument → Option ProviderEndpoints
  | none => none
  | some document =>
    match document.issuer with
    | .text issuer =>
      if issuer = cfg.issuerUrl then do
        let authorizationEndpoint ← endpoint rt document.authorizationEndpoint (isHttps rt cfg.issuerUrl)
        let tokenEndpoint ← endpoint rt document.tokenEndpoint (isHttps rt cfg.issuerUrl)
        let jwksUri ← endpoint rt document.jwksUri (isHttps rt cfg.issuerUrl)
        let tokenAuthMethod ← tokenAuthMethodOf document.tokenEndpointAuthMethodsSupported
        return ⟨cfg.issuerUrl, authorizationEndpoint, tokenEndpoint, jwksUri, tokenAuthMethod⟩
      else none
    | _ => none

/-- What `fetchKeys` makes of the listed keys, of which some may be no objects. -/
def keysOf (listed : Option (List (Option κ))) : Option (List κ) :=
  let keys := listed.getD []
  if keys.isEmpty || keys.any fun key => !key.any rt.hasKty then none else some (keys.filterMap id)

/-- A URL that the adapter sends requests or browsers to. -/
def IsEndpoint (text : String) : Prop :=
  ∃ url, rt.parseUrl text = some url ∧ '#' ∉ text.toList ∧
    (url.protocol = "https:" ∨ (url.protocol = "http:" ∧ isHttps rt cfg.issuerUrl = false)) ∧ url.hostname ≠ "" ∧
    url.username = "" ∧ url.password = ""

/-- **Endpoints of the issuer that was configured.** -/
structure ProviderEndpoints.Trusted (endpoints : ProviderEndpoints) : Prop where
  issuer : endpoints.issuer = cfg.issuerUrl
  authorizationEndpoint : IsEndpoint rt cfg endpoints.authorizationEndpoint
  tokenEndpoint : IsEndpoint rt cfg endpoints.tokenEndpoint
  jwksUri : IsEndpoint rt cfg endpoints.jwksUri

/-- Keys that a token can be checked with. -/
def AreKeys (keys : List κ) : Prop := keys ≠ [] ∧ ∀ key ∈ keys, rt.hasKty key = true

variable {rt cfg}

theorem isEndpoint_of_endpoint {value : Unknown} {text : String}
    (h : endpoint rt value (isHttps rt cfg.issuerUrl) = some text) : IsEndpoint rt cfg text := by
  unfold endpoint at h
  cases value with
  | undefined | list | other => cases h
  | text given =>
    dsimp only at h
    cases hparsed : rt.parseUrl given with
    | none =>
      rw [hparsed] at h
      cases h
    | some url =>
      rw [hparsed] at h
      dsimp only at h
      by_cases hfragment : given.toList.contains '#' = true
      · rw [if_pos hfragment] at h
        cases h
      · rw [if_neg hfragment] at h
        obtain ⟨hallowed, htext⟩ := Option.ite_none_right_eq_some.mp h
        obtain rfl := Option.some.inj htext
        exact ⟨url, hparsed, fun hmem => hfragment (List.contains_iff_mem.mpr hmem), hallowed⟩

/-- **An accepted document is one of the configured issuer.** -/
theorem trusted_of_discoverEndpoints {document : Option DiscoveryDocument} {endpoints : ProviderEndpoints}
    (h : discoverEndpoints rt cfg document = some endpoints) : endpoints.Trusted rt cfg := by
  unfold discoverEndpoints at h
  cases document with
  | none => cases h
  | some document =>
    dsimp only at h
    cases hissuer : document.issuer with
    | undefined | list | other =>
      rw [hissuer] at h
      cases h
    | text issuer =>
      rw [hissuer] at h
      obtain ⟨-, h⟩ := Option.ite_none_right_eq_some.mp h
      obtain ⟨authorizationEndpoint, hauthorization, h⟩ := Option.bind_eq_some_iff.mp h
      obtain ⟨tokenEndpoint, htoken, h⟩ := Option.bind_eq_some_iff.mp h
      obtain ⟨jwksUri, hjwks, h⟩ := Option.bind_eq_some_iff.mp h
      obtain ⟨tokenAuthMethod, -, h⟩ := Option.bind_eq_some_iff.mp h
      obtain rfl := Option.some.inj h
      exact ⟨rfl, isEndpoint_of_endpoint hauthorization, isEndpoint_of_endpoint htoken, isEndpoint_of_endpoint hjwks⟩

theorem areKeys_of_keysOf {listed : Option (List (Option κ))} {keys : List κ} (h : keysOf rt listed = some keys) :
    AreKeys rt keys := by
  unfold keysOf at h
  dsimp only at h
  by_cases hbad : ((listed.getD []).isEmpty || (listed.getD []).any fun key => !key.any rt.hasKty) = true
  · rw [if_pos hbad] at h
    cases h
  · rw [if_neg hbad] at h
    obtain rfl := Option.some.inj h
    simp only [Bool.or_eq_true, not_or, List.isEmpty_iff, List.any_eq_true, not_exists, not_and,
      Bool.not_eq_eq_eq_not, Bool.not_true] at hbad
    obtain ⟨hne, hall⟩ := hbad
    have hsome {key : Option κ} (hkey : key ∈ listed.getD []) : ∃ k, key = some k ∧ rt.hasKty k = true := by
      have hgood := hall key hkey
      cases key with
      | none => exact absurd rfl hgood
      | some k => exact ⟨k, rfl, Bool.not_eq_false _ ▸ hgood⟩
    refine ⟨?_, fun k hk => ?_⟩
    · obtain ⟨key, rest, hcons⟩ := List.exists_cons_of_ne_nil hne
      obtain ⟨k, rfl, -⟩ := hsome (hcons ▸ List.mem_cons_self)
      rw [hcons]
      exact List.cons_ne_nil _ _
    · obtain ⟨key, hkey, hid⟩ := List.mem_filterMap.mp hk
      obtain ⟨k', hkeyEq, hkty⟩ := hsome hkey
      obtain rfl := Option.some.inj (hkeyEq.symm.trans hid)
      exact hkty

end

/-! ## The entry of a provider -/

/-- A set of keys, which is one object. -/
structure KeySet (κ : Type) where
  object : ℕ
  keys : List κ

/-- What the adapter knows of a provider, with the number of the discovery that it comes from. -/
structure ProviderMetadata (κ : Type) extends ProviderEndpoints where
  object : ℕ
  keySet : KeySet κ
  origin : ℕ

/-- The last answer, and how long it is used. -/
structure Settled (κ : Type) where
  goodUntil : ℤ
  metadata : Option (ProviderMetadata κ)

/-- A discovery in flight: its document is fetched, or the keys that the accepted document names. -/
structure Discovery where
  startedAt : ℤ
  endpoints : Option ProviderEndpoints

/-- A discovery that is over. -/
structure Discovered (κ : Type) where
  startedAt : ℤ
  settledAt : ℤ
  result : Option (ProviderMetadata κ)

/-- A fetch of the keys again: when the clock was read to decide it, when it was noted, and for which metadata. -/
structure Refetch (κ : Type) where
  checkedAt : ℤ
  startedAt : ℤ
  base : ProviderMetadata κ

/-- Where a call is. -/
inductive Call (κ : Type)
  /-- It awaits a discovery: a call for the metadata, or one that has met an unknown key id with the metadata it has seen. -/
  | loading (seen : Option (ProviderMetadata κ)) (discovery : ℕ)
  /-- `load` has given it the metadata there are. -/
  | loaded (seen : ProviderMetadata κ) (current : Option (ProviderMetadata κ))
  | refetching (seen : ProviderMetadata κ) (refetch : ℕ)
  | answered (metadata : Option (ProviderMetadata κ))
  | answeredKeys (seen : ProviderMetadata κ) (keys : Option (KeySet κ))

/-- Metadata that were used as they were kept: when, and after how many discoveries. -/
structure Served (κ : Type) where
  readAt : ℤ
  metadata : ProviderMetadata κ
  discoveries : ℕ

/-- When a call asked, and how many discoveries were over then. -/
structure Asked where
  readAt : ℤ
  discoveries : ℕ

/-- An entry, with the calls, when each of them asked, and what has happened. -/
structure Provider (κ : Type) where
  settled : Option (Settled κ) := none
  inflight : Option Discovery := none
  keysRefetchedAt : Option ℤ := none
  keysRefetch : Option (Refetch κ) := none
  objects : List (ProviderMetadata κ) := []
  calls : List (Call κ) := []
  asked : List Asked := []
  discovered : List (Discovered κ) := []
  started : List (Refetch κ) := []
  refetched : List (Option (ProviderMetadata κ)) := []
  served : List (Served κ) := []

/-- The shortest time between two fetches of the keys of a provider for unknown key ids. -/
def KEYS_REFETCH_INTERVAL_MS : ℤ := 60000

/-- What happens to an entry; the integers are readings of the clock. -/
inductive ProviderEvent (κ : Type)
  /-- Someone asks for the metadata. -/
  | asksMetadata (now : ℤ)
  /-- A call that was given metadata has met a token with an unknown key id. -/
  | asksKeys (call : ℕ) (now : ℤ)
  /-- The document has come, or no document. -/
  | documentComes (document : Option DiscoveryDocument) (now : ℤ)
  /-- The keys that the document names have come, or no keys. -/
  | keysCome (listed : Option (List (Option κ))) (now : ℤ)
  /-- The keys that were fetched again have come, or no keys. -/
  | keysComeAgain (listed : Option (List (Option κ)))
  /-- A call goes on. -/
  | goesOn (call : ℕ) (checkedAt startedAt : ℤ)

section

variable {κ : Type} (rt : ProviderRuntime κ) (cfg : ProviderConfig)

/-- Until when the answer of a discovery is used. -/
def Discovered.goodUntil (d : Discovered κ) : ℤ :=
  d.settledAt + if d.result.isSome then (cfg.cacheTtlMs : ℤ) else (cfg.failureTtlMs : ℤ)

namespace Provider

variable (p : Provider κ)

/-- The answer that is still used. -/
def kept (now : ℤ) : Option (Option (ProviderMetadata κ)) :=
  match p.settled with
  | none => none
  | some s => if now < s.goodUntil then some s.metadata else none

/-- A call that `load` has answered at once. -/
def callOf (seen value : Option (ProviderMetadata κ)) : Call κ :=
  match seen with
  | none => .answered value
  | some seen => .loaded seen value

/-- `load`, for a call that asks for the metadata or has seen some. -/
def load (seen : Option (ProviderMetadata κ)) (now : ℤ) : Provider κ :=
  match p.kept now with
  | some value =>
    { p with
      calls := p.calls ++ [callOf seen value]
      asked := p.asked ++ [⟨now, p.discovered.length⟩]
      served := p.served ++ value.toList.map fun m => ⟨now, m, p.discovered.length⟩ }
  | none =>
    { p with
      inflight := p.inflight.or (some ⟨now, none⟩)
      calls := p.calls ++ [.loading seen p.discovered.length]
      asked := p.asked ++ [⟨now, p.discovered.length⟩] }

/-- The end of `refresh`. -/
def settle (startedAt now : ℤ) (result : Option (ProviderMetadata κ)) : Provider κ :=
  { p with
    settled := some ⟨(⟨startedAt, now, result⟩ : Discovered κ).goodUntil cfg, result⟩
    inflight := none
    discovered := p.discovered ++ [⟨startedAt, now, result⟩] }

/-- The end of `refetchKeys`. -/
def settleKeys (base : ProviderMetadata κ) (result : Option (ProviderMetadata κ)) : Provider κ :=
  { p with
    settled := p.settled.map fun s =>
      if s.metadata.any (fun m => m.object == base.object) && result.isSome then { s with metadata := result } else s
    keysRefetch := none
    refetched := p.refetched ++ [result] }

/-- New objects for metadata with their keys. -/
def made (endpoints : ProviderEndpoints) (keys : List κ) (origin : ℕ) : ProviderMetadata κ :=
  ⟨endpoints, p.objects.length, ⟨p.objects.length, keys⟩, origin⟩

/-- `keysAfterUnknownKeyId`, once `load` has given the call what there is. -/
def goOnWithKeys (call : ℕ) (seen current : ProviderMetadata κ) (checkedAt startedAt : ℤ) : Provider κ :=
  if current.keySet.object ≠ seen.keySet.object then
    { p with calls := p.calls.set call (.answeredKeys seen (some current.keySet)) }
  else if p.keysRefetch.isSome then { p with calls := p.calls.set call (.refetching seen p.refetched.length) }
  else if p.keysRefetchedAt.any fun before => decide (checkedAt - before < KEYS_REFETCH_INTERVAL_MS) then
    { p with calls := p.calls.set call (.answeredKeys seen none) }
  else
    { p with
      keysRefetchedAt := some startedAt
      keysRefetch := some ⟨checkedAt, startedAt, current⟩
      started := p.started ++ [⟨checkedAt, startedAt, current⟩]
      calls := p.calls.set call (.refetching seen p.refetched.length) }

/-- One turn; none when the event cannot happen. -/
def step : ProviderEvent κ → Option (Provider κ)
  | .asksMetadata now => some (p.load none now)
  | .asksKeys call now =>
    match p.calls[call]? with
    | some (.answered (some seen)) => some (p.load (some seen) now)
    | _ => none
  | .documentComes document now =>
    match p.inflight with
    | some ⟨startedAt, none⟩ =>
      match discoverEndpoints rt cfg document with
      | none => some (p.settle cfg startedAt now none)
      | some endpoints => some { p with inflight := some ⟨startedAt, some endpoints⟩ }
    | _ => none
  | .keysCome listed now =>
    match p.inflight with
    | some ⟨startedAt, some endpoints⟩ =>
      match keysOf rt listed with
      | none => some (p.settle cfg startedAt now none)
      | some keys =>
        let metadata := p.made endpoints keys p.discovered.length
        some (({ p with objects := p.objects ++ [metadata] } : Provider κ).settle cfg startedAt now (some metadata))
    | _ => none
  | .keysComeAgain listed =>
    match p.keysRefetch with
    | none => none
    | some refetch =>
      match keysOf rt listed with
      | none => some (p.settleKeys refetch.base none)
      | some keys =>
        let updated := p.made refetch.base.toProviderEndpoints keys refetch.base.origin
        some (({ p with objects := p.objects ++ [updated] } : Provider κ).settleKeys refetch.base (some updated))
  | .goesOn call checkedAt startedAt =>
    match p.calls[call]? with
    | some (.loading none discovery) =>
      p.discovered[discovery]?.map fun d => { p with calls := p.calls.set call (.answered d.result) }
    | some (.loading (some seen) discovery) =>
      p.discovered[discovery]?.map fun d => { p with calls := p.calls.set call (.loaded seen d.result) }
    | some (.loaded seen none) => some { p with calls := p.calls.set call (.answeredKeys seen none) }
    | some (.loaded seen (some current)) => some (p.goOnWithKeys call seen current checkedAt startedAt)
    | some (.refetching seen refetch) =>
      p.refetched[refetch]?.map fun result =>
        { p with calls := p.calls.set call (.answeredKeys seen (result.map (·.keySet))) }
    | _ => none

end Provider

/-! ## What every turn keeps -/

/-- Metadata that a discovery has made, perhaps with keys that were fetched again. -/
structure Made (p : Provider κ) (m : ProviderMetadata κ) : Prop where
  object : p.objects[m.object]? = some m
  keysObject : m.keySet.object = m.object
  trusted : m.toProviderEndpoints.Trusted rt cfg
  keys : AreKeys rt m.keySet.keys
  origin : ∃ d h, p.discovered[m.origin]? = some d ∧ d.result = some h ∧ h.toProviderEndpoints = m.toProviderEndpoints

/-- A call that has been given what the adapter has, and waits for nothing that does not come. -/
def Call.Good (p : Provider κ) : Call κ → Prop
  | .loading seen d => (∀ m, seen = some m → Made rt cfg p m) ∧
      (d < p.discovered.length ∨ d = p.discovered.length ∧ p.inflight.isSome)
  | .loaded seen current => Made rt cfg p seen ∧ ∀ m, current = some m → Made rt cfg p m
  | .refetching seen r => Made rt cfg p seen ∧ (r = p.refetched.length ∧ p.keysRefetch.isSome ∨
      ∃ result, p.refetched[r]? = some result ∧
        ∀ m, result = some m → Made rt cfg p m ∧ m.keySet.object ≠ seen.keySet.object)
  | .answered metadata => ∀ m, metadata = some m → Made rt cfg p m
  | .answeredKeys seen keys => Made rt cfg p seen ∧
      ∀ k, keys = some k → AreKeys rt k.keys ∧ k.object ≠ seen.keySet.object

/-- Metadata that are the last discovery's, before the time they are kept is over. -/
def Served.Good (p : Provider κ) (s : Served κ) : Prop :=
  Made rt cfg p s.metadata ∧ s.metadata.origin + 1 = s.discoveries ∧
    ∃ d, p.discovered[s.metadata.origin]? = some d ∧ s.readAt < d.settledAt + cfg.cacheTtlMs

/-- The metadata of the discovery that was in flight when the call asked, or kept ones that were not too old then. -/
def Asked.Given (p : Provider κ) (a : Asked) (m : ProviderMetadata κ) : Prop :=
  m.origin = a.discoveries ∨
    m.origin + 1 = a.discoveries ∧ ∃ d, p.discovered[m.origin]? = some d ∧ a.readAt < d.settledAt + cfg.cacheTtlMs

/-- A call awaits the discovery that was in flight when it asked, and what it is given is given for its asking. -/
def Call.Answers (p : Provider κ) (a : Asked) : Call κ → Prop
  | .loading _ d => d = a.discoveries
  | .loaded _ current => ∀ m, current = some m → a.Given cfg p m
  | .answered metadata => ∀ m, metadata = some m → a.Given cfg p m
  | .refetching _ _ | .answeredKeys _ _ => True

/-- What a call is given, by what there was when it asked. -/
structure AskedEntry (p : Provider κ) : Prop where
  origins : ∀ (i : ℕ) d m, p.discovered[i]? = some d → d.result = some m → m.origin = i
  paired : p.asked.length = p.calls.length
  answers : ∀ (i : ℕ) c, p.calls[i]? = some c → ∃ a, p.asked[i]? = some a ∧ c.Answers cfg p a

/-- **What every turn keeps.** -/
structure KeptEntry (p : Provider κ) : Prop where
  settled : ∀ s, p.settled = some s → ∃ d, p.discovered.getLast? = some d ∧ s.goodUntil = d.goodUntil cfg ∧
    s.metadata.isSome = d.result.isSome ∧ ∀ m, s.metadata = some m → Made rt cfg p m ∧ m.origin + 1 = p.discovered.length
  unsettled : p.settled = none → p.discovered = []
  results : ∀ d ∈ p.discovered, ∀ m, d.result = some m → Made rt cfg p m
  endpoints : ∀ t e, p.inflight = some ⟨t, some e⟩ → e.Trusted rt cfg
  spaced : p.discovered.IsChain fun a b => a.goodUntil cfg ≤ b.startedAt
  next : ∀ i, p.inflight = some i → ∀ d ∈ p.discovered.getLast?, d.goodUntil cfg ≤ i.startedAt
  refetchedAt : p.keysRefetchedAt = p.started.getLast?.map (·.startedAt)
  apart : p.started.IsChain fun a b => a.startedAt + KEYS_REFETCH_INTERVAL_MS ≤ b.checkedAt
  counted : p.started.length = p.refetched.length + p.keysRefetch.toList.length
  refetch : ∀ r, p.keysRefetch = some r → Made rt cfg p r.base
  renewed : ∀ m, some m ∈ p.refetched → Made rt cfg p m
  calls : ∀ c ∈ p.calls, c.Good rt cfg p
  served : ∀ s ∈ p.served, s.Good rt cfg p

/-- What a turn leaves of what has happened, and that it drops no fetch in flight before its answer. -/
structure Grows (p p' : Provider κ) : Prop where
  objects : p.objects <+: p'.objects
  discovered : p.discovered <+: p'.discovered
  inflight : p.inflight.isSome → p'.discovered.length = p.discovered.length → p'.inflight.isSome
  refetched : p'.refetched = p.refetched ∧ (p.keysRefetch.isSome → p'.keysRefetch.isSome) ∨
    ∃ result, p'.refetched = p.refetched ++ [result] ∧
      ∀ m, result = some m → Made rt cfg p' m ∧ p.objects.length ≤ m.object

end

section

variable {κ : Type} {rt : ProviderRuntime κ} {cfg : ProviderConfig} {p p' : Provider κ}
  {m m' : ProviderMetadata κ}

theorem some_of_isPrefix {α : Type} {l l' : List α} (h : l <+: l') {i : ℕ} {a : α} (hi : l[i]? = some a) :
    l'[i]? = some a := by
  obtain ⟨t, rfl⟩ := h
  obtain ⟨hlt, -⟩ := List.getElem?_eq_some_iff.mp hi
  rw [List.getElem?_append_left hlt]
  exact hi

theorem isChain_with {α : Type} {R : α → α → Prop} {l : List α} {a : α} (hl : l.IsChain R)
    (ha : ∀ b ∈ l.getLast?, R b a) : (l ++ [a]).IsChain R := by
  refine List.isChain_append.mpr ⟨hl, .singleton a, fun b hb c hc => ?_⟩
  obtain rfl := Option.some.inj hc
  exact ha b hb

theorem Grows.made (h : Grows rt cfg p p') (hm : Made rt cfg p m) : Made rt cfg p' m := by
  obtain ⟨hobject, hkeysObject, htrusted, hkeys, d, first, hd, hrest⟩ := hm
  exact ⟨some_of_isPrefix h.objects hobject, hkeysObject, htrusted, hkeys, d, first,
    some_of_isPrefix h.discovered hd, hrest⟩

theorem Made.lt (h : Made rt cfg p m) : m.object < p.objects.length := (List.getElem?_eq_some_iff.mp h.object).1

theorem Made.eq (h : Made rt cfg p m) (h' : Made rt cfg p m') (hobject : m.object = m'.object) : m = m' :=
  Option.some.inj (h.object.symm.trans (hobject ▸ h'.object))

theorem Grows.call (h : Grows rt cfg p p') {c : Call κ} (hc : c.Good rt cfg p) : c.Good rt cfg p' := by
  have hlength := h.discovered.length_le
  cases c with
  | loading seen d =>
    obtain ⟨hseen, hwaits⟩ := hc
    refine ⟨fun m hm => h.made (hseen m hm), ?_⟩
    rcases hwaits with hlt | ⟨rfl, hinflight⟩
    · exact .inl (hlt.trans_le hlength)
    · rcases hlength.lt_or_eq with hlt | heq
      · exact .inl hlt
      · exact .inr ⟨heq, h.inflight hinflight heq.symm⟩
  | loaded seen current => exact ⟨h.made hc.1, fun m hm => h.made (hc.2 m hm)⟩
  | refetching seen r =>
    obtain ⟨hseen, hwaits⟩ := hc
    refine ⟨h.made hseen, ?_⟩
    rcases hwaits with ⟨rfl, hinflight⟩ | ⟨result, hresult, hmade⟩
    · rcases h.refetched with ⟨hsame, hstill⟩ | ⟨result, hmore, hmade⟩
      · exact .inl ⟨by rw [hsame], hstill hinflight⟩
      · refine .inr ⟨result, by rw [hmore, List.getElem?_concat_length], fun m hm => ?_⟩
        obtain ⟨hm', hnew⟩ := hmade m hm
        refine ⟨hm', ?_⟩
        rw [hm'.keysObject, hseen.keysObject]
        exact (hseen.lt.trans_le hnew).ne'
    · refine .inr ⟨result, ?_, fun m hm => ⟨h.made (hmade m hm).1, (hmade m hm).2⟩⟩
      rcases h.refetched with ⟨hsame, -⟩ | ⟨result, hmore, -⟩
      · rw [hsame]
        exact hresult
      · exact some_of_isPrefix (hmore ▸ List.prefix_append _ _) hresult
  | answered metadata => exact fun m hm => h.made (hc m hm)
  | answeredKeys seen keys => exact ⟨h.made hc.1, hc.2⟩

theorem Grows.serve (h : Grows rt cfg p p') {s : Served κ} (hs : s.Good rt cfg p) : s.Good rt cfg p' := by
  obtain ⟨hmade, horigin, d, hd, hread⟩ := hs
  exact ⟨h.made hmade, horigin, d, some_of_isPrefix h.discovered hd, hread⟩

theorem Grows.calls_served (calls : List (Call κ)) (asked : List Asked) (served : List (Served κ)) :
    Grows rt cfg p { p with calls := calls, asked := asked, served := served } where
  objects := List.prefix_rfl
  discovered := List.prefix_rfl
  inflight := fun h _ => h
  refetched := .inl ⟨rfl, id⟩

/-- Other calls and other uses leave the entry as it is. -/
theorem KeptEntry.calls_served (h : KeptEntry rt cfg p) {calls : List (Call κ)} {asked : List Asked}
    {served : List (Served κ)} (hcalls : ∀ c ∈ calls, c.Good rt cfg p) (hserved : ∀ s ∈ served, s.Good rt cfg p) :
    KeptEntry rt cfg { p with calls := calls, asked := asked, served := served } := by
  have hgrows : Grows rt cfg p { p with calls := calls, asked := asked, served := served } :=
    .calls_served calls asked served
  exact
    { h with
      settled := fun s hs => by
        obtain ⟨d, hlast, huntil, hsome, hmade⟩ := h.settled s hs
        exact ⟨d, hlast, huntil, hsome, fun m hm => ⟨hgrows.made (hmade m hm).1, (hmade m hm).2⟩⟩
      results := fun d hd m hm => hgrows.made (h.results d hd m hm)
      refetch := fun r hr => hgrows.made (h.refetch r hr)
      renewed := fun m hm => hgrows.made (h.renewed m hm)
      calls := fun c hc => hgrows.call (hcalls c hc)
      served := fun s hs => hgrows.serve (hserved s hs) }

theorem KeptEntry.set (h : KeptEntry rt cfg p) (i : ℕ) {c : Call κ} (hc : c.Good rt cfg p) :
    KeptEntry rt cfg { p with calls := p.calls.set i c } := by
  refine h.calls_served (fun c' hc' => ?_) h.served
  rcases List.mem_or_eq_of_mem_set hc' with hold | rfl
  · exact h.calls c' hold
  · exact hc

theorem Provider.kept_eq_some {now : ℤ} {value : Option (ProviderMetadata κ)} (h : p.kept now = some value) :
    ∃ s, p.settled = some s ∧ now < s.goodUntil ∧ s.metadata = value := by
  unfold Provider.kept at h
  cases hsettled : p.settled with
  | none =>
    rw [hsettled] at h
    cases h
  | some s =>
    rw [hsettled] at h
    obtain ⟨hlt, hvalue⟩ := Option.ite_none_right_eq_some.mp h
    exact ⟨s, rfl, hlt, Option.some.inj hvalue⟩

theorem Provider.kept_eq_none {now : ℤ} (h : p.kept now = none) : ∀ s, p.settled = some s → s.goodUntil ≤ now := by
  intro s hs
  unfold Provider.kept at h
  rw [hs] at h
  dsimp only at h
  by_contra hearly
  have hlt : now < s.goodUntil := Int.not_le.mp hearly
  rw [if_pos hlt] at h
  cases h

theorem KeptEntry.serve (h : KeptEntry rt cfg p) {now : ℤ} (hkept : p.kept now = some (some m)) :
    Served.Good rt cfg p ⟨now, m, p.discovered.length⟩ := by
  obtain ⟨s, hs, hlt, hvalue⟩ := Provider.kept_eq_some hkept
  obtain ⟨d, hlast, huntil, hsome, hmade⟩ := h.settled s hs
  obtain ⟨hm, horigin⟩ := hmade m hvalue
  rw [hvalue] at hsome
  refine ⟨hm, horigin, d, ?_, ?_⟩
  · rw [List.getLast?_eq_getElem?] at hlast
    rw [← hlast, ← horigin, Nat.add_sub_cancel]
  · rw [huntil, Discovered.goodUntil, ← hsome] at hlt
    exact hlt

/-- **`load` keeps it.** -/
theorem KeptEntry.load (h : KeptEntry rt cfg p) {seen : Option (ProviderMetadata κ)}
    (hseen : ∀ m, seen = some m → Made rt cfg p m) (now : ℤ) : KeptEntry rt cfg (p.load seen now) := by
  unfold Provider.load
  cases hkept : p.kept now with
  | some value =>
    dsimp only
    obtain ⟨s, hs, -, hvalue⟩ := Provider.kept_eq_some hkept
    obtain ⟨-, -, -, -, hmade⟩ := h.settled s hs
    refine h.calls_served (fun c hc => ?_) (fun u hu => ?_)
    · rcases List.mem_append.mp hc with hold | hnew
      · exact h.calls c hold
      · obtain rfl := List.mem_singleton.mp hnew
        cases seen with
        | none => exact fun m hm => (hmade m (hvalue.trans hm)).1
        | some seen => exact ⟨hseen seen rfl, fun m hm => (hmade m (hvalue.trans hm)).1⟩
    · rcases List.mem_append.mp hu with hold | hnew
      · exact h.served u hold
      · obtain ⟨m, hm, rfl⟩ := List.mem_map.mp hnew
        obtain rfl := Option.mem_toList.mp hm
        exact h.serve hkept
  | none =>
    dsimp only
    have hover := Provider.kept_eq_none hkept
    have hgrows : Grows rt cfg p { p with
        inflight := p.inflight.or (some ⟨now, none⟩)
        calls := p.calls ++ [.loading seen p.discovered.length]
        asked := p.asked ++ [⟨now, p.discovered.length⟩] } :=
      { objects := List.prefix_rfl
        discovered := List.prefix_rfl
        inflight := fun _ _ => by cases p.inflight <;> rfl
        refetched := .inl ⟨rfl, id⟩ }
    exact
      { h with
        settled := fun s hs => by
          obtain ⟨d, hlast, huntil, hsome, hmade⟩ := h.settled s hs
          exact ⟨d, hlast, huntil, hsome, fun m hm => ⟨hgrows.made (hmade m hm).1, (hmade m hm).2⟩⟩
        results := fun d hd m hm => hgrows.made (h.results d hd m hm)
        endpoints := fun t e hinflight => by
          cases hbefore : p.inflight with
          | none =>
            rw [hbefore] at hinflight
            cases hinflight
          | some i =>
            rw [hbefore] at hinflight
            exact h.endpoints t e (hbefore.trans hinflight)
        next := fun i hinflight d hd => by
          cases hbefore : p.inflight with
          | none =>
            rw [hbefore] at hinflight
            cases hinflight
            -- the discovery starts because the last answer is over
            cases hsettled : p.settled with
            | none =>
              rw [h.unsettled hsettled] at hd
              cases hd
            | some s =>
              obtain ⟨d', hlast, huntil, -, -⟩ := h.settled s hsettled
              obtain rfl := Option.some.inj (hlast.symm.trans hd)
              rw [← huntil]
              exact hover s hsettled
          | some before =>
            rw [hbefore] at hinflight
            exact h.next i (hbefore.trans hinflight) d hd
        refetch := fun r hr => hgrows.made (h.refetch r hr)
        renewed := fun m hm => hgrows.made (h.renewed m hm)
        calls := fun c hc => by
          rcases List.mem_append.mp hc with hold | hnew
          · exact hgrows.call (h.calls c hold)
          · obtain rfl := List.mem_singleton.mp hnew
            refine ⟨fun m hm => hgrows.made (hseen m hm), .inr ⟨rfl, ?_⟩⟩
            cases p.inflight <;> rfl
        served := fun s hs => hgrows.serve (h.served s hs) }

/-- **The end of a discovery keeps it.** -/
theorem KeptEntry.settle (h : KeptEntry rt cfg p) {discovery : Discovery} {now : ℤ} {result : Option (ProviderMetadata κ)}
    (hinflight : p.inflight = some discovery) (objects : List (ProviderMetadata κ)) (hobjects : p.objects <+: objects)
    (hresult : ∀ m, result = some m → objects[m.object]? = some m ∧ m.keySet.object = m.object ∧
      m.toProviderEndpoints.Trusted rt cfg ∧ AreKeys rt m.keySet.keys ∧ m.origin = p.discovered.length) :
    KeptEntry rt cfg (({ p with objects := objects } : Provider κ).settle cfg discovery.startedAt now result) := by
  have hgrows : Grows rt cfg p (({ p with objects := objects } : Provider κ).settle cfg discovery.startedAt now result) :=
    { objects := hobjects
      discovered := List.prefix_append _ _
      inflight := fun _ hlength => by
        have hlonger : (p.discovered ++ [(⟨discovery.startedAt, now, result⟩ : Discovered κ)]).length = p.discovered.length + 1 :=
          List.length_append
        exact absurd (hlonger.symm.trans hlength) (Nat.succ_ne_self _)
      refetched := .inl ⟨rfl, id⟩ }
  have hmade (m : ProviderMetadata κ) (hm : result = some m) :
      Made rt cfg (({ p with objects := objects } : Provider κ).settle cfg discovery.startedAt now result) m := by
    obtain ⟨hobject, hkeysObject, htrusted, hkeys, horigin⟩ := hresult m hm
    refine ⟨hobject, hkeysObject, htrusted, hkeys, ⟨discovery.startedAt, now, result⟩, m, ?_, hm, rfl⟩
    rw [horigin]
    exact List.getElem?_concat_length
  exact
    { settled := fun s hs => by
        obtain rfl := Option.some.inj hs
        refine ⟨_, List.getLast?_concat, rfl, rfl, fun m hm => ⟨hmade m hm, ?_⟩⟩
        rw [(hresult m hm).2.2.2.2]
        show p.discovered.length + 1 = (p.discovered ++ [(⟨discovery.startedAt, now, result⟩ : Discovered κ)]).length
        rw [List.length_append]
        rfl
      unsettled := fun hnone => by cases hnone
      results := fun d hd m hm => by
        rcases List.mem_append.mp hd with hold | hnew
        · exact hgrows.made (h.results d hold m hm)
        · obtain rfl := List.mem_singleton.mp hnew
          exact hmade m hm
      endpoints := fun t e hnone => by cases hnone
      spaced := isChain_with h.spaced (h.next discovery hinflight)
      next := fun i hnone => by cases hnone
      refetchedAt := h.refetchedAt
      apart := h.apart
      counted := h.counted
      refetch := fun r hr => hgrows.made (h.refetch r hr)
      renewed := fun m hm => hgrows.made (h.renewed m hm)
      calls := fun c hc => hgrows.call (h.calls c hc)
      served := fun s hs => hgrows.serve (h.served s hs) }

/-- **The end of a fetch of the keys keeps it**: the kept metadata are replaced only if they are those it was for. -/
theorem KeptEntry.settleKeys (h : KeptEntry rt cfg p) {refetch : Refetch κ} {result : Option (ProviderMetadata κ)}
    (hrefetch : p.keysRefetch = some refetch) (objects : List (ProviderMetadata κ)) (hobjects : p.objects <+: objects)
    (hresult : ∀ m, result = some m → objects[m.object]? = some m ∧ m.keySet.object = m.object ∧
      AreKeys rt m.keySet.keys ∧ m.toProviderEndpoints = refetch.base.toProviderEndpoints ∧
      m.origin = refetch.base.origin ∧ p.objects.length ≤ m.object) :
    KeptEntry rt cfg (({ p with objects := objects } : Provider κ).settleKeys refetch.base result) := by
  have hbase := h.refetch refetch hrefetch
  have hmade (m : ProviderMetadata κ) (hm : result = some m) :
      Made rt cfg (({ p with objects := objects } : Provider κ).settleKeys refetch.base result) m := by
    obtain ⟨hobject, hkeysObject, hkeys, hendpoints, horigin, -⟩ := hresult m hm
    refine ⟨hobject, hkeysObject, hendpoints ▸ hbase.trusted, hkeys, ?_⟩
    rw [horigin, hendpoints]
    exact hbase.origin
  have hgrows : Grows rt cfg p (({ p with objects := objects } : Provider κ).settleKeys refetch.base result) :=
    { objects := hobjects
      discovered := List.prefix_rfl
      inflight := fun hsome _ => hsome
      refetched := .inr ⟨result, rfl, fun m hm => ⟨hmade m hm, (hresult m hm).2.2.2.2.2⟩⟩ }
  exact
    { settled := fun s hs => by
        obtain ⟨s', hs', heq⟩ := Option.map_eq_some_iff.mp hs
        obtain ⟨d, hlast, huntil, hsome, hold⟩ := h.settled s' hs'
        by_cases hsame : (s'.metadata.any (fun m => m.object == refetch.base.object) && result.isSome) = true
        · rw [if_pos hsame] at heq
          subst heq
          obtain ⟨hany, hnew⟩ := Bool.and_eq_true_iff.mp hsame
          obtain ⟨m', hm', hobject⟩ : ∃ m', s'.metadata = some m' ∧ m'.object = refetch.base.object := by
            cases hmetadata : s'.metadata with
            | none =>
              rw [hmetadata] at hany
              cases hany
            | some m' =>
              rw [hmetadata] at hany
              exact ⟨m', rfl, beq_iff_eq.mp hany⟩
          obtain ⟨hmadeOld, horiginOld⟩ := hold m' hm'
          have hidentical := hmadeOld.eq hbase hobject
          refine ⟨d, hlast, huntil, ?_, fun m hm => ⟨hmade m hm, ?_⟩⟩
          · rw [← hsome, hm']
            exact hnew
          · rw [(hresult m hm).2.2.2.2.1, ← hidentical]
            exact horiginOld
        · rw [if_neg hsame] at heq
          subst heq
          exact ⟨d, hlast, huntil, hsome, fun m hm => ⟨hgrows.made (hold m hm).1, (hold m hm).2⟩⟩
      unsettled := fun hnone => h.unsettled (Option.map_eq_none_iff.mp hnone)
      results := fun d hd m hm => hgrows.made (h.results d hd m hm)
      endpoints := h.endpoints
      spaced := h.spaced
      next := h.next
      refetchedAt := h.refetchedAt
      apart := h.apart
      counted := by
        have hcounted := h.counted
        rw [hrefetch] at hcounted
        refine hcounted.trans ?_
        show p.refetched.length + 1 = (p.refetched ++ [result]).length + 0
        rw [List.length_append]
        rfl
      refetch := fun r hnone => by cases hnone
      renewed := fun m hm => by
        rcases List.mem_append.mp hm with hold | hnew
        · exact hgrows.made (h.renewed m hold)
        · exact hmade m (List.mem_singleton.mp hnew).symm
      calls := fun c hc => hgrows.call (h.calls c hc)
      served := fun s hs => hgrows.serve (h.served s hs) }

/-- An accepted document keeps it. -/
theorem KeptEntry.withEndpoints (h : KeptEntry rt cfg p) {startedAt : ℤ} {endpoints : ProviderEndpoints}
    (hinflight : p.inflight = some ⟨startedAt, none⟩) (htrusted : endpoints.Trusted rt cfg) :
    KeptEntry rt cfg { p with inflight := some ⟨startedAt, some endpoints⟩ } := by
  have hgrows : Grows rt cfg p { p with inflight := some ⟨startedAt, some endpoints⟩ } :=
    { objects := List.prefix_rfl
      discovered := List.prefix_rfl
      inflight := fun _ _ => rfl
      refetched := .inl ⟨rfl, id⟩ }
  exact
    { h with
      settled := fun s hs => by
        obtain ⟨d, hlast, huntil, hsome, hmade⟩ := h.settled s hs
        exact ⟨d, hlast, huntil, hsome, fun m hm => ⟨hgrows.made (hmade m hm).1, (hmade m hm).2⟩⟩
      results := fun d hd m hm => hgrows.made (h.results d hd m hm)
      endpoints := fun t e hsome => by
        cases hsome
        exact htrusted
      next := fun i hsome d hd => by
        cases hsome
        exact h.next _ hinflight d hd
      refetch := fun r hr => hgrows.made (h.refetch r hr)
      renewed := fun m hm => hgrows.made (h.renewed m hm)
      calls := fun c hc => hgrows.call (h.calls c hc)
      served := fun s hs => hgrows.serve (h.served s hs) }

/-- **A call that has met an unknown key id keeps it.** -/
theorem KeptEntry.goOnWithKeys (h : KeptEntry rt cfg p) {seen current : ProviderMetadata κ} (hseen : Made rt cfg p seen)
    (hcurrent : Made rt cfg p current) (call : ℕ) (checkedAt startedAt : ℤ) :
    KeptEntry rt cfg (p.goOnWithKeys call seen current checkedAt startedAt) := by
  unfold Provider.goOnWithKeys
  by_cases hother : current.keySet.object ≠ seen.keySet.object
  · rw [if_pos hother]
    refine h.set call (c := .answeredKeys seen (some current.keySet)) ⟨hseen, fun k hk => ?_⟩
    obtain rfl := Option.some.inj hk
    exact ⟨hcurrent.keys, hother⟩
  rw [if_neg hother]
  by_cases hrefetch : p.keysRefetch.isSome = true
  · rw [if_pos hrefetch]
    exact h.set call (c := .refetching seen p.refetched.length) ⟨hseen, .inl ⟨rfl, hrefetch⟩⟩
  rw [if_neg hrefetch]
  by_cases hrecent :
      (p.keysRefetchedAt.any fun before => decide (checkedAt - before < KEYS_REFETCH_INTERVAL_MS)) = true
  · rw [if_pos hrecent]
    exact h.set call (c := .answeredKeys seen none) ⟨hseen, fun k hk => by cases hk⟩
  rw [if_neg hrecent]
  have hgrows : Grows rt cfg p { p with
      keysRefetchedAt := some startedAt
      keysRefetch := some ⟨checkedAt, startedAt, current⟩
      started := p.started ++ [⟨checkedAt, startedAt, current⟩]
      calls := p.calls.set call (.refetching seen p.refetched.length) } :=
    { objects := List.prefix_rfl
      discovered := List.prefix_rfl
      inflight := fun hsome _ => hsome
      refetched := .inl ⟨rfl, fun _ => rfl⟩ }
  exact
    { h with
      settled := fun s hs => by
        obtain ⟨d, hlast, huntil, hsome, hmade⟩ := h.settled s hs
        exact ⟨d, hlast, huntil, hsome, fun m hm => ⟨hgrows.made (hmade m hm).1, (hmade m hm).2⟩⟩
      results := fun d hd m hm => hgrows.made (h.results d hd m hm)
      refetchedAt := by
        rw [List.getLast?_concat]
        rfl
      apart := by
        refine isChain_with h.apart fun before hbefore => ?_
        have hat : p.keysRefetchedAt = some before.startedAt := by
          rw [h.refetchedAt, Option.mem_def.mp hbefore]
          rfl
        rw [hat] at hrecent
        have hlate : ¬ checkedAt - before.startedAt < KEYS_REFETCH_INTERVAL_MS := fun hlt => hrecent (decide_eq_true hlt)
        show before.startedAt + KEYS_REFETCH_INTERVAL_MS ≤ checkedAt
        omega
      counted := by
        have hcounted := h.counted
        rw [Option.not_isSome_iff_eq_none.mp hrefetch] at hcounted
        show (p.started ++ [_]).length = p.refetched.length + 1
        rw [List.length_append, hcounted]
        rfl
      refetch := fun r hr => by
        obtain rfl := Option.some.inj hr
        exact hgrows.made hcurrent
      renewed := fun m hm => hgrows.made (h.renewed m hm)
      calls := fun c hc => by
        rcases List.mem_or_eq_of_mem_set hc with hold | rfl
        · exact hgrows.call (h.calls c hold)
        · exact ⟨hgrows.made hseen, .inl ⟨rfl, rfl⟩⟩
      served := fun s hs => hgrows.serve (h.served s hs) }

/-- **Every turn keeps it.** -/
theorem KeptEntry.step (h : KeptEntry rt cfg p) {e : ProviderEvent κ} (hstep : p.step rt cfg e = some p') :
    KeptEntry rt cfg p' := by
  cases e with
  | asksMetadata now =>
    obtain rfl := Option.some.inj hstep
    exact h.load (fun m hm => by cases hm) now
  | asksKeys call now =>
    simp only [Provider.step] at hstep
    split at hstep
    · rename_i seen hcall
      obtain rfl := Option.some.inj hstep
      have hgood := h.calls _ (List.mem_of_getElem? hcall)
      exact h.load (fun m hm => hgood m hm) now
    · cases hstep
  | documentComes document now =>
    simp only [Provider.step] at hstep
    split at hstep
    · rename_i startedAt hinflight
      split at hstep
      · obtain rfl := Option.some.inj hstep
        exact h.settle hinflight p.objects List.prefix_rfl fun m hm => by cases hm
      · rename_i endpoints haccepted
        obtain rfl := Option.some.inj hstep
        exact h.withEndpoints hinflight (trusted_of_discoverEndpoints haccepted)
    · cases hstep
  | keysCome listed now =>
    simp only [Provider.step] at hstep
    split at hstep
    · rename_i startedAt endpoints hinflight
      split at hstep
      · obtain rfl := Option.some.inj hstep
        exact h.settle hinflight p.objects List.prefix_rfl fun m hm => by cases hm
      · rename_i keys haccepted
        obtain rfl := Option.some.inj hstep
        refine h.settle hinflight _ (List.prefix_append _ _) fun m hm => ?_
        obtain rfl := Option.some.inj hm
        exact ⟨List.getElem?_concat_length, rfl, h.endpoints _ _ hinflight, areKeys_of_keysOf haccepted, rfl⟩
    · cases hstep
  | keysComeAgain listed =>
    simp only [Provider.step] at hstep
    split at hstep
    · cases hstep
    · rename_i refetch hrefetch
      split at hstep
      · obtain rfl := Option.some.inj hstep
        exact h.settleKeys hrefetch p.objects List.prefix_rfl fun m hm => by cases hm
      · rename_i keys haccepted
        obtain rfl := Option.some.inj hstep
        refine h.settleKeys hrefetch _ (List.prefix_append _ _) fun m hm => ?_
        obtain rfl := Option.some.inj hm
        exact ⟨List.getElem?_concat_length, rfl, areKeys_of_keysOf haccepted, rfl, rfl, le_rfl⟩
  | goesOn call checkedAt startedAt =>
    simp only [Provider.step] at hstep
    split at hstep
    · obtain ⟨d, hd, rfl⟩ := Option.map_eq_some_iff.mp hstep
      exact h.set call fun m hm => h.results d (List.mem_of_getElem? hd) m hm
    · rename_i seen discovery hcall
      obtain ⟨d, hd, rfl⟩ := Option.map_eq_some_iff.mp hstep
      have hgood := h.calls _ (List.mem_of_getElem? hcall)
      exact h.set call ⟨hgood.1 seen rfl, fun m hm => h.results d (List.mem_of_getElem? hd) m hm⟩
    · rename_i seen hcall
      obtain rfl := Option.some.inj hstep
      have hgood := h.calls _ (List.mem_of_getElem? hcall)
      exact h.set call ⟨hgood.1, fun k hk => by cases hk⟩
    · rename_i seen current hcall
      obtain rfl := Option.some.inj hstep
      have hgood := h.calls _ (List.mem_of_getElem? hcall)
      exact h.goOnWithKeys hgood.1 (hgood.2 current rfl) call checkedAt startedAt
    · rename_i seen refetch hcall
      obtain ⟨result, hresult, rfl⟩ := Option.map_eq_some_iff.mp hstep
      obtain ⟨hseen, hwaits⟩ := h.calls _ (List.mem_of_getElem? hcall)
      refine h.set call ⟨hseen, fun k hk => ?_⟩
      obtain ⟨m, rfl, rfl⟩ := Option.map_eq_some_iff.mp hk
      rcases hwaits with ⟨rfl, -⟩ | ⟨result, hsame, hmade⟩
      · rw [List.getElem?_eq_none le_rfl] at hresult
        cases hresult
      · obtain rfl := Option.some.inj (hsame.symm.trans hresult)
        obtain ⟨hm, hnew⟩ := hmade m rfl
        exact ⟨hm.keys, hnew⟩
    · cases hstep

/-! ## What a call is given -/

theorem Asked.Given.grows (h : p.discovered <+: p'.discovered) {a : Asked} (hm : a.Given cfg p m) : a.Given cfg p' m := by
  rcases hm with hawaited | ⟨hkept, d, hd, hread⟩
  · exact .inl hawaited
  · exact .inr ⟨hkept, d, some_of_isPrefix h hd, hread⟩

theorem Call.Answers.grows (h : p.discovered <+: p'.discovered) {a : Asked} {c : Call κ} (hc : c.Answers cfg p a) :
    c.Answers cfg p' a := by
  cases c with
  | loading seen d => exact hc
  | loaded seen current => exact fun m hm => (hc m hm).grows h
  | answered metadata => exact fun m hm => (hc m hm).grows h
  | refetching | answeredKeys => trivial

namespace AskedEntry

/-- One more call. -/
theorem load (h : AskedEntry cfg p) (hkept : KeptEntry rt cfg p) (seen : Option (ProviderMetadata κ)) (now : ℤ) :
    AskedEntry cfg (p.load seen now) := by
  have hcalls {c : Call κ} (hc : c.Answers cfg p ⟨now, p.discovered.length⟩) (i : ℕ) (c' : Call κ)
      (hi : (p.calls ++ [c])[i]? = some c') : ∃ a, (p.asked ++ [⟨now, p.discovered.length⟩])[i]? = some a ∧
        c'.Answers cfg p a := by
    rcases Nat.lt_or_ge i p.calls.length with hlt | hge
    · rw [List.getElem?_append_left hlt] at hi
      rw [List.getElem?_append_left (h.paired ▸ hlt)]
      exact h.answers i c' hi
    · rw [List.getElem?_append_right hge] at hi
      rw [List.getElem?_append_right (h.paired ▸ hge), h.paired]
      obtain ⟨hlast, hsame⟩ := List.getElem?_eq_some_iff.mp hi
      have hzero : i - p.calls.length = 0 := by
        rw [List.length_singleton] at hlast
        omega
      rw [hzero] at hi ⊢
      obtain rfl := Option.some.inj hi
      exact ⟨_, rfl, hc⟩
  have hpaired (c : Call κ) :
      (p.asked ++ [(⟨now, p.discovered.length⟩ : Asked)]).length = (p.calls ++ [c]).length := by
    rw [List.length_append, List.length_append, h.paired]
    rfl
  unfold Provider.load
  cases hnow : p.kept now with
  | some value =>
    refine ⟨h.origins, hpaired _, hcalls ?_⟩
    have hgiven : ∀ m, value = some m → Asked.Given cfg p ⟨now, p.discovered.length⟩ m := by
      rintro m rfl
      obtain ⟨-, horigin, hread⟩ := hkept.serve hnow
      exact .inr ⟨horigin, hread⟩
    cases seen with
    | none => exact hgiven
    | some seen => exact hgiven
  | none => exact ⟨h.origins, hpaired _, hcalls rfl⟩

theorem set (h : AskedEntry cfg p) {i : ℕ} {c c' : Call κ} (hi : p.calls[i]? = some c)
    (hc : ∀ a, c.Answers cfg p a → c'.Answers cfg p a) : AskedEntry cfg { p with calls := p.calls.set i c' } := by
  refine ⟨h.origins, h.paired.trans List.length_set.symm, fun j c'' hj => ?_⟩
  rcases eq_or_ne i j with rfl | hij
  · obtain ⟨hlt, -⟩ := List.getElem?_eq_some_iff.mp hi
    rw [List.getElem?_set_self hlt] at hj
    obtain rfl := Option.some.inj hj
    obtain ⟨a, ha, hanswers⟩ := h.answers i c hi
    exact ⟨a, ha, hc a hanswers⟩
  · rw [List.getElem?_set_ne hij] at hj
    exact h.answers j c'' hj

/-- A discovery ends. -/
theorem settle (h : AskedEntry cfg p) {startedAt now : ℤ} {result : Option (ProviderMetadata κ)}
    (objects : List (ProviderMetadata κ)) (hresult : ∀ m, result = some m → m.origin = p.discovered.length) :
    AskedEntry cfg (({ p with objects := objects } : Provider κ).settle cfg startedAt now result) := by
  have hgrows : p.discovered <+: p.discovered ++ [⟨startedAt, now, result⟩] := List.prefix_append _ _
  refine ⟨fun i d m hi hm => ?_, h.paired, fun i c hi => ?_⟩
  · have hi : (p.discovered ++ [⟨startedAt, now, result⟩])[i]? = some d := hi
    rcases Nat.lt_or_ge i p.discovered.length with hlt | hge
    · rw [List.getElem?_append_left hlt] at hi
      exact h.origins i d m hi hm
    · obtain ⟨hlast, hsame⟩ := List.getElem?_eq_some_iff.mp hi
      rw [List.length_append, List.length_singleton] at hlast
      obtain rfl : i = p.discovered.length := by omega
      rw [List.getElem_concat_length rfl] at hsame
      subst hsame
      exact hresult m hm
  · obtain ⟨a, ha, hanswers⟩ := h.answers i c hi
    exact ⟨a, ha, hanswers.grows hgrows⟩

theorem given (h : AskedEntry cfg p) {discovery : ℕ} {d : Discovered κ} (hd : p.discovered[discovery]? = some d)
    (a : Asked) (hawaited : discovery = a.discoveries) : ∀ m, d.result = some m → a.Given cfg p m :=
  fun m hm => .inl ((h.origins discovery d m hd hm).trans hawaited)

/-- **Every turn keeps it.** -/
theorem step (h : AskedEntry cfg p) (hkept : KeptEntry rt cfg p) {e : ProviderEvent κ}
    (hstep : p.step rt cfg e = some p') : AskedEntry cfg p' := by
  cases e with
  | asksMetadata now =>
    obtain rfl := Option.some.inj hstep
    exact h.load hkept none now
  | asksKeys call now =>
    simp only [Provider.step] at hstep
    split at hstep
    · rename_i seen hcall
      obtain rfl := Option.some.inj hstep
      exact h.load hkept (some seen) now
    · cases hstep
  | documentComes document now =>
    simp only [Provider.step] at hstep
    split at hstep
    · split at hstep
      · obtain rfl := Option.some.inj hstep
        exact h.settle p.objects fun m hm => by cases hm
      · obtain rfl := Option.some.inj hstep
        exact ⟨h.origins, h.paired, h.answers⟩
    · cases hstep
  | keysCome listed now =>
    simp only [Provider.step] at hstep
    split at hstep
    · split at hstep
      · obtain rfl := Option.some.inj hstep
        exact h.settle p.objects fun m hm => by cases hm
      · obtain rfl := Option.some.inj hstep
        refine h.settle _ fun m hm => ?_
        obtain rfl := Option.some.inj hm
        rfl
    · cases hstep
  | keysComeAgain listed =>
    simp only [Provider.step] at hstep
    split at hstep
    · cases hstep
    · split at hstep
      · obtain rfl := Option.some.inj hstep
        exact ⟨h.origins, h.paired, h.answers⟩
      · obtain rfl := Option.some.inj hstep
        exact ⟨h.origins, h.paired, h.answers⟩
  | goesOn call checkedAt startedAt =>
    simp only [Provider.step] at hstep
    split at hstep
    · rename_i discovery hcall
      obtain ⟨d, hd, rfl⟩ := Option.map_eq_some_iff.mp hstep
      exact h.set hcall (h.given hd)
    · rename_i seen discovery hcall
      obtain ⟨d, hd, rfl⟩ := Option.map_eq_some_iff.mp hstep
      exact h.set hcall (h.given hd)
    · rename_i seen hcall
      obtain rfl := Option.some.inj hstep
      exact h.set hcall fun _ _ => trivial
    · rename_i seen current hcall
      obtain rfl := Option.some.inj hstep
      have hkeys (keys : Option (KeySet κ)) := @set _ _ _ h _ _ (.answeredKeys seen keys) hcall fun _ _ => trivial
      have hrefetch (r : ℕ) := @set _ _ _ h _ _ (.refetching seen r) hcall fun _ _ => trivial
      unfold Provider.goOnWithKeys
      split
      · exact hkeys _
      · split
        · exact hrefetch _
        · split
          · exact hkeys _
          · exact ⟨(hrefetch p.refetched.length).origins, (hrefetch p.refetched.length).paired,
              (hrefetch p.refetched.length).answers⟩
    · rename_i seen refetch hcall
      obtain ⟨result, -, rfl⟩ := Option.map_eq_some_iff.mp hstep
      exact h.set hcall fun _ _ => trivial
    · cases hstep

end AskedEntry

end

/-! ## Every run -/

section

variable {κ : Type} (rt : ProviderRuntime κ) (cfg : ProviderConfig)

/-- The entry of a provider from the start of the process on. -/
def provider : System (Provider κ) (ProviderEvent κ) where
  init p := p = {}
  step p e p' := p.step rt cfg e = some p'

/-- **A sound entry.** -/
structure SoundEntry (p : Provider κ) : Prop where
  /-- No discovery starts before the one before it is over and its answer too old. -/
  discoveries : p.discovered.IsChain fun a b => a.goodUntil cfg ≤ b.startedAt
  /-- Nor does the one in flight. -/
  inflight : ∀ i, p.inflight = some i → ∀ d ∈ p.discovered.getLast?, d.goodUntil cfg ≤ i.startedAt
  /-- No fetch of the keys for an unknown key id starts within a minute of the one before it, or before that is over. -/
  refetches : p.started.IsChain fun a b => a.startedAt + KEYS_REFETCH_INTERVAL_MS ≤ b.checkedAt
  oneRefetch : p.started.length ≤ p.refetched.length + 1
  /-- What is kept is of the last discovery, whatever fetches of the keys have ended since. -/
  newest : ∀ s m, p.settled = some s → s.metadata = some m → m.origin + 1 = p.discovered.length
  /-- What is used as it was kept was the last discovery's then, and not too old. -/
  served : ∀ s ∈ p.served, ∃ d h, p.discovered[s.discoveries - 1]? = some d ∧ d.result = some h ∧
    h.toProviderEndpoints = s.metadata.toProviderEndpoints ∧ s.readAt < d.settledAt + cfg.cacheTtlMs
  /-- A call is given the result of the discovery it awaited, or what was kept when it asked and was not too old then. -/
  given : ∀ (i : ℕ) c, p.calls[i]? = some c → ∃ a, p.asked[i]? = some a ∧ c.Answers cfg p a
  /-- A call is given endpoints that a document of the configured issuer named, and keys. -/
  answered : ∀ m, Call.answered (some m) ∈ p.calls → m.toProviderEndpoints.Trusted rt cfg ∧ AreKeys rt m.keySet.keys ∧
    ∃ d h, p.discovered[m.origin]? = some d ∧ d.result = some h ∧ h.toProviderEndpoints = m.toProviderEndpoints
  /-- A call that has met an unknown key id is given other keys than those it has seen, or none. -/
  answeredKeys : ∀ seen keys, Call.answeredKeys seen (some keys) ∈ p.calls →
    AreKeys rt keys.keys ∧ keys.object ≠ seen.keySet.object
  /-- A call that waits can go on, or its fetch is in flight. -/
  waits : ∀ c ∈ p.calls, match c with
    | .loading _ d => d < p.discovered.length ∨ d = p.discovered.length ∧ p.inflight.isSome
    | .refetching _ r => r < p.refetched.length ∨ r = p.refetched.length ∧ p.keysRefetch.isSome
    | _ => True

variable {rt cfg} {p : Provider κ}

theorem keptEntry_start : KeptEntry rt cfg ({} : Provider κ) where
  settled := fun _ h => by cases h
  unsettled := fun _ => rfl
  results := fun _ h => absurd h List.not_mem_nil
  endpoints := fun _ _ h => by cases h
  spaced := .nil
  next := fun _ h => by cases h
  refetchedAt := rfl
  apart := .nil
  counted := rfl
  refetch := fun _ h => by cases h
  renewed := fun _ h => absurd h List.not_mem_nil
  calls := fun _ h => absurd h List.not_mem_nil
  served := fun _ h => absurd h List.not_mem_nil

theorem KeptEntry.sound (h : KeptEntry rt cfg p) (hasked : AskedEntry cfg p) : SoundEntry rt cfg p where
  discoveries := h.spaced
  inflight := h.next
  refetches := h.apart
  oneRefetch := by
    rw [h.counted]
    cases p.keysRefetch with
    | none => exact Nat.le_succ _
    | some _ => exact le_rfl
  newest := fun s m hs hm => by
    obtain ⟨-, -, -, -, hmade⟩ := h.settled s hs
    exact (hmade m hm).2
  served := fun s hs => by
    obtain ⟨hmade, horigin, d, hd, hread⟩ := h.served s hs
    obtain ⟨d', first, hd', hfirst, hendpoints⟩ := hmade.origin
    obtain rfl := Option.some.inj (hd'.symm.trans hd)
    refine ⟨d', first, ?_, hfirst, hendpoints, hread⟩
    rw [← horigin, Nat.add_sub_cancel]
    exact hd
  given := hasked.answers
  answered := fun m hm => by
    have hmade := h.calls _ hm m rfl
    exact ⟨hmade.trusted, hmade.keys, hmade.origin⟩
  answeredKeys := fun seen keys hcall => (h.calls _ hcall).2 keys rfl
  waits := fun c hc => by
    have hgood := h.calls c hc
    cases c with
    | loading seen d => exact hgood.2
    | refetching seen r =>
      rcases hgood.2 with hinflight | ⟨result, hresult, -⟩
      · exact .inr hinflight
      · exact .inl (List.getElem?_eq_some_iff.mp hresult).1
    | loaded | answered | answeredKeys => trivial

/-- **In every run the entry of a provider is sound.** -/
theorem provider_sound (h : (provider rt cfg).Reachable p) : SoundEntry rt cfg p := by
  have hboth : KeptEntry rt cfg p ∧ AskedEntry cfg p := by
    refine h.invariant (I := fun p => KeptEntry rt cfg p ∧ AskedEntry cfg p) (fun s hstart => ?_)
      fun _ _ _ hboth hstep => ⟨hboth.1.step hstep, hboth.2.step hboth.1 hstep⟩
    obtain rfl : s = {} := hstart
    refine ⟨keptEntry_start, fun _ _ _ hd => ?_, rfl, fun _ _ hc => ?_⟩
    · cases hd
    · cases hc
  exact hboth.1.sound hboth.2

/-! ## A token with an unknown key id -/

def oneHost : ProviderRuntime ℕ where
  parseUrl _ := some ⟨"https:", "a", "", ""⟩
  hasKty _ := true

def oneProvider : ProviderConfig := ⟨"https://a", 3600000, 60000⟩

def oneDocument : DiscoveryDocument where
  issuer := .text "https://a"
  authorizationEndpoint := .text "https://a/authorize"
  tokenEndpoint := .text "https://a/token"
  jwksUri := .text "https://a/keys"
  tokenEndpointAuthMethodsSupported := .undefined

/-- A sign-in whose token names a key that the provider has added since. -/
def keyAdded : List (ProviderEvent ℕ) :=
  [.asksMetadata 0, .documentComes (some oneDocument) 10, .keysCome (some [some 1]) 20, .goesOn 0 20 20, .asksKeys 0 30,
    .goesOn 1 30 30, .keysComeAgain (some [some 1, some 2]), .goesOn 1 40 40]

def afterKeyAdded : Provider ℕ := (System.follow (Provider.step oneHost oneProvider) {} keyAdded).getD {}

theorem reachable_keyAdded : (provider oneHost oneProvider).Reachable afterKeyAdded := by
  have hinit : (provider oneHost oneProvider).Reachable {} := .init rfl
  refine hinit.follow (fun p e p' (hstep : p.step oneHost oneProvider e = some p') => hstep) keyAdded {} ?_
  decide

theorem provider_sound_keyAdded : SoundEntry oneHost oneProvider afterKeyAdded ∧ afterKeyAdded.started.length = 1 ∧
    afterKeyAdded.settled.map (fun s => s.metadata.map fun m => m.keySet.keys) = some (some [1, 2]) :=
  ⟨provider_sound reachable_keyAdded, by decide, by decide⟩

end

end SlugBase.Identity
