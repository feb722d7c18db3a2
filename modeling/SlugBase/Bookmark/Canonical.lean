import SlugBase.Bookmark.Query

/-!
# The canonical address

What normalising an address again gives, and which changes of an address leave its canonical form as it is.

* `FollowsUrlStandard`: what the parser of the URL Standard does with the parts of an address that it wrote;
* `Stable`: idempotence, and the changes that make no difference;
* **`stable_iff`**: an address is stable exactly when no kept parameter is there both bare and with an empty value.
-/

namespace SlugBase

open JavaScript

/-! ## The parser -/

/-- The scheme of a bookmark. -/
def IsHttp (protocol : JsString) : Prop := protocol = js "http:" ∨ protocol = js "https:"

/-- A serialised address, from its parts. -/
def urlText (protocol credentials host path query fragment : JsString) : JsString :=
  protocol ++ js "//" ++ credentials ++ host ++ path ++ query ++ fragment

/-- A path is never empty once it is parsed. -/
def orSlash (path : JsString) : JsString := if path = [] then js "/" else path

/-- The search of a query: nothing, when the query is only its question mark. -/
def searchOf (query : JsString) : JsString := if query = js "?" then [] else query

/-- The path without the slashes at its end. -/
def withoutSlashes (path : JsString) : JsString := path.rdropWhile (· == 0x2F)

/-- **The parser of the URL Standard on addresses that it wrote**: they are printable ASCII, and their parts are read
back as they stand when credentials, fragment or parameters are left out, parameters are put in another order, or the
slashes at the end of the path are left out. -/
structure FollowsUrlStandard (parseUrl : JsString → Option ParsedUrl) : Prop where
  visible : ∀ {given : JsString} {p : ParsedUrl}, parseUrl given = some p → IsHttp p.protocol →
    ∀ u ∈ p.href, 0x20 < u ∧ u < 0x7F
  reads : ∀ {given : JsString} {p : ParsedUrl}, parseUrl given = some p → IsHttp p.protocol →
    ∃ credentials query fragment, p.href = urlText p.protocol credentials p.host p.pathname query fragment ∧
      p.search = searchOf query ∧ p.pathname ≠ [] ∧ (query = [] ∨ ∃ rest, query = 0x3F :: rest) ∧
      ∀ credentials' path query' fragment', credentials' = credentials ∨ credentials' = [] →
        path = p.pathname ∨ path = withoutSlashes p.pathname →
        query' = [] ∨ (∃ pairs, pairs.Subperm (pairsOf query) ∧ query' = queryOf pairs) →
        fragment' = fragment ∨ fragment' = [] →
        parseUrl (urlText p.protocol credentials' p.host path query' fragment') =
          some ⟨urlText p.protocol credentials' p.host (orSlash path) query' fragment', p.protocol, p.host, p.hostname,
            orSlash path, searchOf query'⟩

section

variable {parseUrl : JsString → Option ParsedUrl} {input text : JsString} {p q : ParsedUrl} {v : BookmarkUrl}

/-! ## What is accepted -/

theorem trimEdgeWhitespace_visible (h : ∀ u ∈ text, 0x20 < u ∧ u < 0x7F) : trimEdgeWhitespace text = text := by
  have hspace : ∀ u : UInt16, 0x20 < u → isEdgeWhitespace u = false := by
    intro u hu
    by_contra hspace
    rw [Bool.not_eq_false, isEdgeWhitespace] at hspace
    simp only [Bool.or_eq_true, beq_iff_eq] at hspace
    rcases hspace with (((rfl | rfl) | rfl) | rfl) | rfl <;> exact absurd hu (by decide)
  have hfront : text.dropWhile isEdgeWhitespace = text := by
    cases text with
    | nil => rfl
    | cons u rest => rw [List.dropWhile_cons_of_neg (by rw [hspace u (h u List.mem_cons_self).1]; decide)]
  rw [trimEdgeWhitespace, hfront, List.rdropWhile_eq_self_iff]
  intro hne
  rw [hspace _ (h _ (List.getLast_mem hne)).1]
  decide

theorem hasHttpPrefix_of_isHttp {rest : JsString} (h : IsHttp p.protocol) :
    hasHttpPrefix (p.protocol ++ js "//" ++ rest) = true := by
  rcases h with h | h
  · have hjs : p.protocol ++ js "//" = js "http://" := by rw [h]; decide
    rw [hasHttpPrefix, hjs, Bool.or_eq_true]
    refine .inl ?_
    rw [hasPrefix, List.take_left]
    decide
  · have hjs : p.protocol ++ js "//" = js "https://" := by rw [h]; decide
    rw [hasHttpPrefix, hjs, Bool.or_eq_true]
    refine .inr ?_
    rw [hasPrefix, List.take_left]
    decide

/-- **A serialised address is accepted**, when it is short enough. -/
theorem accepted (hparse : parseUrl text = some p) (hhttp : IsHttp p.protocol) (hhost : p.hostname ≠ [])
    (hbegins : ∃ rest, text = p.protocol ++ js "//" ++ rest) (hvisible : ∀ u ∈ text, 0x20 < u ∧ u < 0x7F)
    (hlength : text.length ≤ bookmarkUrlMaxLength) (hhref : p.href.length ≤ bookmarkUrlMaxLength) :
    normalizeBookmarkUrl parseUrl text = .ok ⟨p.href, canonicalOf p, p.hostname⟩ := by
  obtain ⟨rest, htext⟩ := hbegins
  have hne : text ≠ [] := by
    rw [htext]
    simp [js, encode]
  have hhttpPrefix : hasHttpPrefix text = true := htext ▸ hasHttpPrefix_of_isHttp hhttp
  have hcontrol : text.any (fun u => u ≤ 0x1F || u == 0x7F) = false := by
    rw [List.any_eq_false]
    intro u hu
    obtain ⟨hlow, hhigh⟩ := hvisible u hu
    rw [Bool.or_eq_true, decide_eq_true_iff, beq_iff_eq, not_or]
    refine ⟨fun hle => ?_, fun heq => ?_⟩
    · exact absurd (Std.lt_of_lt_of_le hlow hle) (by decide)
    · exact absurd (heq ▸ hhigh) (by decide)
  have hscheme : ((p.protocol != js "http:" && p.protocol != js "https:") || p.hostname == []) = false := by
    rw [Bool.or_eq_false_iff, Bool.and_eq_false_iff, beq_eq_false_iff_ne, bne_eq_false_iff_eq, bne_eq_false_iff_eq]
    exact ⟨hhttp, hhost⟩
  simp only [normalizeBookmarkUrl, trimEdgeWhitespace_visible hvisible, if_neg hne, hhttpPrefix, hcontrol, hparse, hscheme,
    Bool.not_true, Bool.false_eq_true, if_false, if_neg (Nat.not_lt.mpr hlength), if_neg (Nat.not_lt.mpr hhref)]

/-! ## The parts of an accepted address -/

theorem withoutSlashes_orSlash (path : JsString) : withoutSlashes (orSlash (withoutSlashes path)) = withoutSlashes path := by
  unfold orSlash
  split_ifs with h
  · rw [h]
    decide
  · exact List.rdropWhile_idempotent _ path

theorem length_orSlash_withoutSlashes {path : JsString} (h : path ≠ []) :
    (orSlash (withoutSlashes path)).length ≤ path.length := by
  unfold orSlash
  split_ifs
  · exact List.length_pos_iff.mpr h
  · exact (List.rdropWhile_prefix _ path).length_le

theorem searchOf_canonicalQuery (search : JsString) : searchOf (canonicalQuery search) = canonicalQuery search := by
  rw [searchOf, if_neg]
  intro h
  have hkept := keptPairs_canonicalQuery search
  rw [h] at hkept
  have hnone : keptPairs (js "?") = [] := by decide
  rw [canonicalQuery_eq, if_pos (hkept.symm.trans hnone)] at h
  exact absurd h (by decide)

theorem pairsOf_searchOf (query : JsString) : pairsOf (searchOf query) = pairsOf query := by
  unfold searchOf
  split_ifs with hquery
  · rw [hquery]
    decide
  · rfl

theorem canonicalQuery_made (query : JsString) :
    canonicalQuery (searchOf query) = [] ∨
      ∃ pairs, pairs.Subperm (pairsOf query) ∧ canonicalQuery (searchOf query) = queryOf pairs := by
  rw [canonicalQuery_eq]
  split_ifs with hnone
  · exact .inl rfl
  · exact .inr ⟨_, pairsOf_searchOf query ▸ sortedPairs_subperm _, rfl⟩

theorem length_canonicalQuery (query : JsString) (h : query = [] ∨ ∃ rest, query = 0x3F :: rest) :
    (canonicalQuery (searchOf query)).length ≤ query.length := by
  rw [canonicalQuery_eq]
  split_ifs with hnone
  · exact Nat.zero_le _
  · have hle := length_queryOf_le (sortedPairs_subperm (searchOf query)) hnone
    rw [pairsOf_searchOf query] at hle
    rcases h with rfl | ⟨rest, hrest⟩
    · exact absurd (by decide) hnone
    · rwa [queryOf_pairsOf hrest] at hle

theorem canonicalOf_eq (p : ParsedUrl) :
    canonicalOf p = urlText p.protocol [] p.host (withoutSlashes p.pathname) (canonicalQuery p.search) [] := by
  simp [canonicalOf, urlText, withoutSlashes]

theorem canonicalOf_eq_iff (hprotocol : q.protocol = p.protocol) (hhost : q.host = p.host)
    (hpath : withoutSlashes q.pathname = withoutSlashes p.pathname) :
    canonicalOf q = canonicalOf p ↔ sortedPairs q.search = sortedPairs p.search := by
  rw [← canonicalQuery_eq_iff, canonicalOf_eq, canonicalOf_eq, hprotocol, hhost, hpath]
  simp only [urlText, List.append_nil, List.append_right_inj]

theorem begins_urlText (protocol credentials host path query fragment : JsString) :
    ∃ rest, urlText protocol credentials host path query fragment = protocol ++ js "//" ++ rest :=
  ⟨credentials ++ host ++ path ++ query ++ fragment, by simp [urlText]⟩

/-! ## Stability -/

/-- What a bookmark's address promises: normalised again it gives the same, and other texts of the same address give
the same canonical form. -/
structure Stable (parseUrl : JsString → Option ParsedUrl) (p : ParsedUrl) (v : BookmarkUrl) : Prop where
  canonical : ∃ w, normalizeBookmarkUrl parseUrl v.canonical = .ok w ∧ w.canonical = v.canonical
  stored : ∃ w, normalizeBookmarkUrl parseUrl v.url = .ok w ∧ w.url = v.url ∧ w.canonical = v.canonical
  /-- A fragment, credentials, tracking parameters and slashes at the end of the path make no difference. -/
  same : ∀ other w q, normalizeBookmarkUrl parseUrl other = .ok w → parseUrl (trimEdgeWhitespace other) = some q →
    q.protocol = p.protocol → q.host = p.host → withoutSlashes q.pathname = withoutSlashes p.pathname →
    keptPairs q.search = keptPairs p.search → w.canonical = v.canonical
  /-- The order of the parameters makes no difference. -/
  reordered : ∀ other w q, normalizeBookmarkUrl parseUrl other = .ok w → parseUrl (trimEdgeWhitespace other) = some q →
    q.protocol = p.protocol → q.host = p.host → q.pathname = p.pathname → (pairsOf q.search).Perm (pairsOf p.search) →
    w.canonical = v.canonical

theorem value_of_ok (h : normalizeBookmarkUrl parseUrl input = .ok v) (hparse : parseUrl (trimEdgeWhitespace input) = some p) :
    IsHttp p.protocol ∧ p.hostname ≠ [] ∧ p.href.length ≤ bookmarkUrlMaxLength ∧
      v = ⟨p.href, canonicalOf p, p.hostname⟩ := by
  obtain ⟨p', hparse', hhttp, hhost, hlength, hv⟩ := normalizeBookmarkUrl_ok h
  obtain rfl := Option.some.inj (hparse.symm.trans hparse')
  exact ⟨hhttp, hhost, hlength, hv⟩

variable (hstandard : FollowsUrlStandard parseUrl)

include hstandard

/-- **The canonical form of an address is its own canonical form.** -/
theorem canonical_again (h : normalizeBookmarkUrl parseUrl input = .ok v)
    (hparse : parseUrl (trimEdgeWhitespace input) = some p) :
    ∃ w, normalizeBookmarkUrl parseUrl v.canonical = .ok w ∧ w.canonical = v.canonical := by
  obtain ⟨hhttp, hhost, hlength, rfl⟩ := value_of_ok h hparse
  obtain ⟨credentials, query, fragment, hhref, hsearch, hpath, hquery, hreads⟩ := hstandard.reads hparse hhttp
  have hagain := hreads [] (withoutSlashes p.pathname) (canonicalQuery p.search) [] (.inr rfl) (.inr rfl)
    (hsearch ▸ canonicalQuery_made query) (.inr rfl)
  rw [← canonicalOf_eq, searchOf_canonicalQuery] at hagain
  have hvisible := hstandard.visible hagain hhttp
  have hshort := length_canonicalQuery query hquery
  have hpathLength := length_orSlash_withoutSlashes hpath
  rw [← hsearch] at hshort
  have htextLength : (withoutSlashes p.pathname).length ≤ (orSlash (withoutSlashes p.pathname)).length := by
    unfold orSlash
    split_ifs with hnone
    · rw [hnone]
      exact Nat.zero_le _
    · exact le_refl _
  rw [hhref] at hlength
  simp only [urlText, List.length_append] at hlength
  have hsub : ∀ u ∈ canonicalOf p, u ∈ urlText p.protocol [] p.host (orSlash (withoutSlashes p.pathname))
      (canonicalQuery p.search) [] := by
    intro u hu
    have hpathSub : ∀ u ∈ withoutSlashes p.pathname, u ∈ orSlash (withoutSlashes p.pathname) := by
      intro u hu
      rwa [orSlash, if_neg (List.ne_nil_of_mem hu)]
    simp only [canonicalOf_eq, urlText, List.append_nil, List.mem_append] at hu ⊢
    rcases hu with (hu | hu) | hu
    · exact .inl (.inl hu)
    · exact .inl (.inr (hpathSub u hu))
    · exact .inr hu
  have hok := accepted hagain hhttp hhost (canonicalOf_eq p ▸ begins_urlText _ _ _ _ _ _) (fun u hu => hvisible u (hsub u hu))
    (by simp only [canonicalOf_eq, urlText, List.length_append, List.length_nil]; omega)
    (by simp only [urlText, List.length_append, List.length_nil]; omega)
  refine ⟨_, hok, ?_⟩
  simp only [canonicalOf_eq, withoutSlashes_orSlash, canonicalQuery_idem]

/-- **The stored form of an address is its own stored form.** -/
theorem stored_again (h : normalizeBookmarkUrl parseUrl input = .ok v)
    (hparse : parseUrl (trimEdgeWhitespace input) = some p) :
    normalizeBookmarkUrl parseUrl v.url = .ok v := by
  obtain ⟨hhttp, hhost, hlength, rfl⟩ := value_of_ok h hparse
  obtain ⟨credentials, query, fragment, hhref, hsearch, hpath, hquery, hreads⟩ := hstandard.reads hparse hhttp
  have hmade : query = [] ∨ ∃ pairs, pairs.Subperm (pairsOf query) ∧ query = queryOf pairs := by
    rcases hquery with hnone | ⟨rest, hrest⟩
    · exact .inl hnone
    · exact .inr ⟨pairsOf query, List.Subperm.refl _, (queryOf_pairsOf hrest).symm⟩
  have hagain := hreads credentials p.pathname query fragment (.inl rfl) (.inl rfl) hmade (.inl rfl)
  rw [orSlash, if_neg hpath, ← hhref, ← hsearch] at hagain
  exact accepted hagain hhttp hhost (hhref ▸ begins_urlText _ _ _ _ _ _) (hstandard.visible hparse hhttp) hlength hlength

/-- **The same address with its parameters in another order is an address**, and is accepted. -/
theorem reordered_accepted (h : normalizeBookmarkUrl parseUrl input = .ok v)
    (hparse : parseUrl (trimEdgeWhitespace input) = some p) (hsome : p.search ≠ []) {pairs : List JsString}
    (hperm : pairs.Perm (pairsOf p.search)) :
    ∃ other q, normalizeBookmarkUrl parseUrl other = .ok ⟨q.href, canonicalOf q, q.hostname⟩ ∧
      parseUrl (trimEdgeWhitespace other) = some q ∧ q.protocol = p.protocol ∧ q.host = p.host ∧ q.pathname = p.pathname ∧
      pairsOf q.search = pairs := by
  obtain ⟨hhttp, hhost, hlength, rfl⟩ := value_of_ok h hparse
  obtain ⟨credentials, query, fragment, hhref, hsearch, hpath, hquery, hreads⟩ := hstandard.reads hparse hhttp
  have hsame : p.search = query := by
    rw [hsearch, searchOf]
    split_ifs with hnone
    · rw [hsearch, searchOf, if_pos hnone] at hsome
      exact absurd rfl hsome
    · rfl
  obtain ⟨rest, hrest⟩ : ∃ rest, query = 0x3F :: rest := by
    rcases hquery with hnone | hrest
    · exact absurd (hsame.trans hnone) hsome
    · exact hrest
  rw [hsame] at hperm
  have hparts : pairsOf query ≠ [] := List.splitOn_ne_nil _ _
  have hne : pairs ≠ [] := by
    rintro rfl
    exact hparts (List.nil_perm.mp hperm)
  have hread := hreads credentials p.pathname (queryOf pairs) fragment (.inl rfl) (.inl rfl)
    (.inr ⟨pairs, hperm.subperm, rfl⟩) (.inl rfl)
  rw [orSlash, if_neg hpath] at hread
  have hvisible := hstandard.visible hread hhttp
  have hqueryLength : (queryOf pairs).length = query.length := by
    have hsum := (hperm.flatMap_right fun pair => 0x26 :: pair).length_eq
    rw [length_queryOf hne, hsum, ← length_queryOf hparts, queryOf_pairsOf hrest]
  have hshort : (urlText p.protocol credentials p.host p.pathname (queryOf pairs) fragment).length ≤
      bookmarkUrlMaxLength := by
    rw [hhref] at hlength
    simp only [urlText, List.length_append, hqueryLength] at hlength ⊢
    exact hlength
  have hnoAmpersand : ∀ pair ∈ pairs, 0x26 ∉ pair := fun pair hpair => not_mem_pairsOf (hperm.subset hpair)
  refine ⟨_, _, accepted hread hhttp hhost (begins_urlText _ _ _ _ _ _) hvisible hshort hshort,
    (trimEdgeWhitespace_visible hvisible).symm ▸ hread, rfl, rfl, rfl, ?_⟩
  rw [pairsOf_searchOf, pairsOf_queryOf hnoAmpersand hne]

/-- **An accepted address is stable exactly when no parameter that is kept is there both bare and with an empty value.** -/
theorem stable_iff (h : normalizeBookmarkUrl parseUrl input = .ok v)
    (hparse : parseUrl (trimEdgeWhitespace input) = some p) : Stable parseUrl p v ↔ ¬Ambiguous p.search := by
  have hv := (value_of_ok h hparse).2.2.2
  constructor
  · intro hstable hambiguous
    have hsome : p.search ≠ [] := by
      intro hnone
      obtain ⟨name, -, hkept, -⟩ := hambiguous
      have hnothing : keptPairs [] = [] := by decide
      rw [hnone, hnothing] at hkept
      exact List.not_mem_nil hkept
    refine sortedPairs_perm_iff.mp (fun pairs hperm => ?_) hambiguous
    obtain ⟨other, q, hother, hread, hprotocol, hhost, hpath, hpairs⟩ := reordered_accepted hstandard h hparse hsome hperm
    have hcanonical := hstable.reordered other _ q hother hread hprotocol hhost hpath (hpairs ▸ hperm)
    rw [hv] at hcanonical
    have hsorted := (canonicalOf_eq_iff hprotocol hhost (congrArg withoutSlashes hpath)).mp hcanonical
    rwa [sortedPairs, keptPairs_eq, hpairs] at hsorted
  · intro hclear
    refine ⟨canonical_again hstandard h hparse, ⟨v, stored_again hstandard h hparse, rfl, rfl⟩, ?_, ?_⟩
    · intro other w q hother hread hprotocol hhost hpath hkept
      rw [(value_of_ok hother hread).2.2.2, hv]
      exact (canonicalOf_eq_iff hprotocol hhost hpath).mpr (by rw [sortedPairs, hkept, sortedPairs])
    · intro other w q hother hread hprotocol hhost hpath hperm
      rw [(value_of_ok hother hread).2.2.2, hv]
      exact (canonicalOf_eq_iff hprotocol hhost (congrArg withoutSlashes hpath)).mpr
        (sortedPairs_perm_iff.mpr hclear _ hperm)

end

/-! ## One host -/

/-- The characters of the queries that are read here: digits, lower-case letters, the equals sign and the ampersand. -/
def isQueryCharacter (u : UInt16) : Bool :=
  decide (0x30 ≤ u ∧ u ≤ 0x39) || decide (0x61 ≤ u ∧ u ≤ 0x7A) || u == 0x3D || u == 0x26

def isQuery : JsString → Bool
  | [] => true
  | u :: rest => u == 0x3F && rest.all isQueryCharacter

/-- The front page of a host with a query. -/
def frontPageOf (query : JsString) : ParsedUrl :=
  ⟨urlText (js "http:") [] (js "h") (js "/") query [], js "http:", js "h", js "h", js "/", searchOf query⟩

/-- A parser that knows the front page of one host. -/
def oneHost (given : JsString) : Option ParsedUrl :=
  if given.take 8 = js "http://h" then
    let rest := given.drop 8
    let query := if rest.head? = some 0x2F then rest.drop 1 else rest
    if isQuery query then some (frontPageOf query) else none
  else none

theorem oneHost_eq_some {given : JsString} {p : ParsedUrl} (h : oneHost given = some p) :
    ∃ query, isQuery query = true ∧ p = frontPageOf query := by
  unfold oneHost at h
  dsimp only at h
  rw [Option.ite_none_right_eq_some, Option.ite_none_right_eq_some] at h
  exact ⟨_, h.2.1, (Option.some.inj h.2.2).symm⟩

theorem oneHost_urlText {path query : JsString} (hpath : path = js "/" ∨ path = []) (hquery : isQuery query = true) :
    oneHost (urlText (js "http:") [] (js "h") path query []) = some (frontPageOf query) := by
  have hstart : js "http:" ++ js "//" ++ [] ++ js "h" = js "http://h" := by decide
  have hslash : query.head? ≠ some 0x2F := by
    cases query with
    | nil => simp
    | cons u rest =>
      rw [isQuery, Bool.and_eq_true, beq_iff_eq] at hquery
      simp [hquery.1]
  have htake : (js "http://h" ++ (path ++ query)).take 8 = js "http://h" := List.take_left' (by decide)
  have hdrop : (js "http://h" ++ (path ++ query)).drop 8 = path ++ query := List.drop_left' (by decide)
  rw [urlText, hstart, List.append_nil, List.append_assoc, oneHost, htake, if_pos rfl, hdrop]
  rcases hpath with rfl | rfl
  · have hquery' : (js "/" ++ query).drop 1 = query := rfl
    have hhead : (js "/" ++ query).head? = some 0x2F := rfl
    simp only [hhead, if_true, hquery', hquery]
  · simp only [List.nil_append, if_neg hslash, hquery, if_true]

theorem mem_intercalate {separator u : UInt16} : ∀ {parts : List JsString}, u ∈ List.intercalate [separator] parts →
    u = separator ∨ ∃ part ∈ parts, u ∈ part
  | [], h => by simp at h
  | [part], h => by
    rw [List.intercalate_singleton] at h
    exact .inr ⟨part, by simp, h⟩
  | part :: next :: parts, h => by
    rw [List.intercalate_cons_cons, List.mem_append, List.mem_append, List.mem_singleton] at h
    rcases h with (h | h) | h
    · exact .inr ⟨part, by simp, h⟩
    · exact .inl h
    · exact (mem_intercalate h).imp id fun ⟨same, hsame, hu⟩ => ⟨same, List.mem_cons_of_mem _ hsame, hu⟩

theorem mem_of_mem_part {separator u : UInt16} {part : JsString} (hu : u ∈ part) : ∀ {parts : List JsString}, part ∈ parts →
    u ∈ List.intercalate [separator] parts
  | [same], h => by
    rw [List.mem_singleton] at h
    rwa [List.intercalate_singleton, ← h]
  | first :: next :: parts, h => by
    rw [List.intercalate_cons_cons, List.mem_append, List.mem_append]
    rcases List.mem_cons.mp h with rfl | h
    · exact .inl (.inl hu)
    · exact .inr (mem_of_mem_part hu h)

theorem isQuery_queryOf {query : JsString} (hquery : isQuery query = true) {pairs : List JsString}
    (hpairs : pairs.Subperm (pairsOf query)) : isQuery (queryOf pairs) = true := by
  rw [queryOf, isQuery, beq_self_eq_true, Bool.true_and, List.all_eq_true]
  intro u hu
  rcases mem_intercalate hu with rfl | ⟨pair, hpair, hu⟩
  · decide
  · have hmem : u ∈ List.intercalate [0x26] (pairsOf query) := mem_of_mem_part hu (hpairs.subset hpair)
    rw [pairsOf, List.intercalate_splitOn] at hmem
    cases query with
    | nil => simp at hmem
    | cons c rest =>
      rw [isQuery, Bool.and_eq_true, List.all_eq_true] at hquery
      exact hquery.2 u hmem

theorem isQueryCharacter_visible {u : UInt16} (h : isQueryCharacter u = true) : 0x20 < u ∧ u < 0x7F := by
  simp only [isQueryCharacter, Bool.or_eq_true, decide_eq_true_eq, beq_iff_eq] at h
  rcases h with ((⟨hlow, hhigh⟩ | ⟨hlow, hhigh⟩) | rfl) | rfl
  · exact ⟨Std.lt_of_lt_of_le (by decide) hlow, Std.lt_of_le_of_lt hhigh (by decide)⟩
  · exact ⟨Std.lt_of_lt_of_le (by decide) hlow, Std.lt_of_le_of_lt hhigh (by decide)⟩
  · decide
  · decide

theorem isQuery_visible {query : JsString} (h : isQuery query = true) : ∀ u ∈ query, 0x20 < u ∧ u < 0x7F := by
  cases query with
  | nil => simp
  | cons c rest =>
    rw [isQuery, Bool.and_eq_true, beq_iff_eq, List.all_eq_true] at h
    rw [List.forall_mem_cons]
    exact ⟨by rw [h.1]; decide, fun u hu => isQueryCharacter_visible (h.2 u hu)⟩

theorem oneHost_followsUrlStandard : FollowsUrlStandard oneHost where
  visible h _ := by
    obtain ⟨query, hquery, rfl⟩ := oneHost_eq_some h
    intro u hu
    have hstart : (js "http:" ++ js "//" ++ [] ++ js "h" ++ js "/").all (fun u => decide (0x20 < u ∧ u < 0x7F)) = true := by
      decide +kernel
    rw [List.all_eq_true] at hstart
    rw [frontPageOf, urlText, List.append_nil, List.mem_append] at hu
    exact hu.elim (fun h => of_decide_eq_true (hstart u h)) (isQuery_visible hquery u)
  reads h _ := by
    obtain ⟨query, hquery, rfl⟩ := oneHost_eq_some h
    refine ⟨[], query, [], rfl, rfl, List.cons_ne_nil _ _, ?_, ?_⟩
    · cases query with
      | nil => exact .inl rfl
      | cons c rest =>
        rw [isQuery, Bool.and_eq_true, beq_iff_eq] at hquery
        exact .inr ⟨rest, by rw [hquery.1]⟩
    · intro credentials path query' fragment hcredentials hpath hmade hfragment
      obtain rfl : credentials = [] := hcredentials.elim id id
      obtain rfl : fragment = [] := hfragment.elim id id
      have hquery' : isQuery query' = true := by
        rcases hmade with rfl | ⟨pairs, hpairs, rfl⟩
        · rfl
        · exact isQuery_queryOf hquery hpairs
      have hslash : path = js "/" ∨ path = [] := hpath
      have hread := oneHost_urlText hslash hquery'
      rcases hslash with rfl | rfl <;> exact hread

theorem stable_iff_twoParameters :
    Stable oneHost (frontPageOf (js "?b=2&a=1")) ⟨js "http://h/?b=2&a=1", js "http://h?a=1&b=2", js "h"⟩ := by
  have hok : normalizeBookmarkUrl oneHost (js "http://h/?b=2&a=1") =
      .ok ⟨js "http://h/?b=2&a=1", js "http://h?a=1&b=2", js "h"⟩ := by decide +kernel
  have hparse : oneHost (trimEdgeWhitespace (js "http://h/?b=2&a=1")) = some (frontPageOf (js "?b=2&a=1")) := by
    decide +kernel
  refine (stable_iff oneHost_followsUrlStandard hok hparse).mpr ?_
  rintro ⟨name, hname, hbare, -⟩
  have hkept : keptPairs (frontPageOf (js "?b=2&a=1")).search = [js "b=2", js "a=1"] := by decide +kernel
  rw [hkept, List.mem_cons, List.mem_singleton] at hbare
  rcases hbare with rfl | rfl <;> exact hname (by decide)

/-- **Two orders of the same parameters have two canonical forms**, when one parameter is there both bare and with an
empty value. -/
theorem canonical_of_bare_and_empty :
    normalizeBookmarkUrl oneHost (js "http://h/?a&a=") = .ok ⟨js "http://h/?a&a=", js "http://h?a&a=", js "h"⟩ ∧
      normalizeBookmarkUrl oneHost (js "http://h/?a=&a") = .ok ⟨js "http://h/?a=&a", js "http://h?a=&a", js "h"⟩ ∧
      ¬Stable oneHost (frontPageOf (js "?a&a=")) ⟨js "http://h/?a&a=", js "http://h?a&a=", js "h"⟩ := by
  have hother : normalizeBookmarkUrl oneHost (js "http://h/?a=&a") =
      .ok ⟨js "http://h/?a=&a", js "http://h?a=&a", js "h"⟩ := by decide +kernel
  refine ⟨by decide +kernel, hother, fun hstable => ?_⟩
  -- stated for all queries, so that the kernel does not compare these two
  have hsame (a b : JsString) : (frontPageOf a).protocol = (frontPageOf b).protocol ∧
      (frontPageOf a).host = (frontPageOf b).host ∧ (frontPageOf a).pathname = (frontPageOf b).pathname :=
    ⟨rfl, rfl, rfl⟩
  obtain ⟨hprotocol, hhost, hpath⟩ := hsame (js "?a=&a") (js "?a&a=")
  have hcanonical := hstable.reordered (js "http://h/?a=&a") _ (frontPageOf (js "?a=&a")) hother (by decide +kernel)
    hprotocol hhost hpath (by decide +kernel)
  exact absurd hcanonical (by decide)

end SlugBase
