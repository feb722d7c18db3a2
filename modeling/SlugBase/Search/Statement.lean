import SlugBase.Access.Restated
import SlugBase.Lib.Ranked
import Mathlib.Data.Prod.Lex
import Mathlib.Data.String.Basic
import Mathlib.Data.List.DropRight
import Mathlib.Order.OrderDual

/-!
# The search statements

`sys_search`, `sys_bookmark_match` and `sys_go_suggest`, branch by branch as their SQL has them.

* `TextSearch`: what the database brings — lower case, white space, the order of titles, lexemes,
  scores and resemblance; `Window`: the rows a `LIMIT` without an order happens to keep;
* `searchText`, `tsquery`: the text of a query and the words it asks for;
* `Hit`: a bookmark in a tier of the search; `searchHits`, `sysSearch`: the search;
* `sysBookmarkMatch`: the text query of the list; `goSuggestHits`, `sysGoSuggest`: the suggestions.
-/

namespace SlugBase.Search

open Relational

/-- **The database's text functions**, with the types of its title order and of its scores. -/
structure TextSearch (κ σ : Type) where
  lower : String → String
  isSpace : Char → Bool
  /-- The place of a text in the order of the database's collation. -/
  collate : String → κ
  /-- `title ILIKE pattern || '%'`, of the escaped text. -/
  ilikePrefix : String → String → Bool
  /-- `tsvector_to_array(to_tsvector('simple', text))`. -/
  lexemes : String → List String
  /-- `0::real`. -/
  zero : σ
  tsRankCd : Bookmark → List String → σ
  wordSimilarity : String → String → σ
  /-- `pg_trgm.word_similarity_threshold`, as the functions set it. -/
  threshold : σ

/-- The rows read at most without an order. -/
def windowSize : ℕ := 300

/-- **`LIMIT 300` without `ORDER BY`**: some of the rows, as many as there are up to the limit. -/
structure Window where
  rows : List Bookmark → List Bookmark
  subperm : ∀ l, (rows l).Subperm l
  length : ∀ l, (rows l).length = min windowSize l.length

/-- The window that keeps the rows as they are stored. -/
def Window.stored : Window where
  rows l := l.take windowSize
  subperm l := (List.take_sublist _ l).subperm
  length _ := List.length_take

/-- The three windows of a search. -/
structure Windows where
  wide : Window
  title : Window
  host : Window

section

variable {κ σ : Type} [LinearOrder κ] [LinearOrder σ] (T : TextSearch κ σ)

/-! ## The text -/

/-- `regexp_replace(text, '[[:space:]]+', ' ', 'g')`, inside a run of white space or not. -/
def oneSpace : Bool → List Char → List Char
  | _, [] => []
  | inside, c :: cs =>
    if T.isSpace c then if inside then oneSpace true cs else ' ' :: oneSpace true cs
    else c :: oneSpace false cs

/-- `btrim(text)`. -/
def btrim (text : List Char) : List Char := (text.dropWhile (· = ' ')).rdropWhile (· = ' ')

/-- `v_text` of the search functions. -/
def searchText (query : Option String) : String :=
  T.lower (String.ofList (btrim (oneSpace T false ((query.getD "").toList.take 100))))

/-- `v_limit`. -/
def searchLimit (limit : Option ℤ) : ℕ := (min (max (limit.getD 0) 0) 20).toNat

/-- Whether the text is too short for full-text and trigram terms. -/
def isShort (text : String) : Bool := decide (text.toList.length < 3)

/-- `v_tsquery`: the lexemes of the first eight words, `none` when there is none. -/
def tsquery (text : String) : Option (List String) :=
  match ((text.toList.splitOn ' ').take 8).flatMap fun word => T.lexemes (String.ofList word) with
  | [] => none
  | terms => some terms

/-- `vector @@ v_tsquery`: every term begins a lexeme of the vector. -/
def fullTextMatch (vector : List String) (query : Option (List String)) : Bool :=
  query.any fun terms => terms.all fun term => vector.any fun lexeme => term.toList.isPrefixOf lexeme.toList

/-- The vector of the slug and the title. -/
def titleSlugVector (b : Bookmark) : List String := T.lexemes (b.slug.getD "") ++ T.lexemes b.title

/-- The column `search`. -/
def searchVector (b : Bookmark) : List String :=
  T.lexemes (b.slug.getD "") ++ T.lexemes b.title ++ T.lexemes b.host ++ T.lexemes (b.description.getD "")

/-- `slug LIKE v_pattern || '%'`. -/
def slugPrefixed (text : String) (b : Bookmark) : Bool :=
  b.slug.any fun slug => text.toList.isPrefixOf slug.toList

/-- `v_text <% field`. -/
def resembles (text field : String) : Bool := decide (T.threshold ≤ T.wordSimilarity text field)

/-- `ts_rank_cd(b.search, v_tsquery)`; the branches that ask for it have a query. -/
def textScore (query : Option (List String)) (b : Bookmark) : σ := (query.map (T.tsRankCd b)).getD T.zero

/-! ## Hits and their orders -/

variable (σ) in
/-- A bookmark the search has found, with the tier and the score of the branch that found it. The last join
of the statement reads the row again by its identifier. -/
structure Hit where
  bookmark : Bookmark
  tier : ℕ
  score : σ

variable (σ) in
/-- The identifier of a hit. -/
def Hit.id (h : Hit σ) : Uuid := h.bookmark.id

/-- `lower(title), id`. -/
def titleOrder (b : Bookmark) : κ ×ₗ ℕ := toLex (T.collate (T.lower b.title), b.id)

/-- `score DESC, lower(title), id`. -/
def scoreOrder (query : Option (List String)) (b : Bookmark) : σᵒᵈ ×ₗ (κ ×ₗ ℕ) :=
  toLex (OrderDual.toDual (textScore T query b), titleOrder T b)

/-- `tier, score DESC, lower(title), id`. -/
def Hit.rank (h : Hit σ) : ℕ ×ₗ (σᵒᵈ ×ₗ (κ ×ₗ ℕ)) :=
  toLex (h.tier, toLex (OrderDual.toDual h.score, titleOrder T h.bookmark))

/-- `tier, lower(title), id`. -/
def Hit.shortRank (h : Hit σ) : ℕ ×ₗ (κ ×ₗ ℕ) := toLex (h.tier, titleOrder T h.bookmark)

/-- `id, tier, score DESC`. -/
def Hit.idOrder (h : Hit σ) : ℕ ×ₗ (ℕ ×ₗ σᵒᵈ) := toLex (h.id, toLex (h.tier, OrderDual.toDual h.score))

/-- `SELECT DISTINCT ON (id) … ORDER BY id, tier, score DESC`. -/
def distinctHits (l : List (Hit σ)) : List (Hit σ) := best Hit.idOrder (Hit.id σ) l

/-! ## The branches -/

variable (c : Content) (a w : Uuid) (text : String)

/-- The bookmarks a branch selects, by what it asks beside access. -/
def selected (asks : Bookmark → Bool) : List Bookmark :=
  c.bookmarks.rows.filter fun b => searchable c a w b && asks b

/-- `b.slug = v_text`. -/
def slugRows : List Bookmark := selected c a w fun b => sqlEq b.slug (some text)

/-- `b.slug LIKE v_pattern || '%'`. -/
def prefixRows : List Bookmark := selected c a w (slugPrefixed text)

/-- `b.title ILIKE v_pattern || '%'`. -/
def titleRows : List Bookmark := selected c a w fun b => T.ilikePrefix text b.title

/-- The bookmarks whose slug and title hold every word. -/
def wordRows : List Bookmark := selected c a w fun b => fullTextMatch (titleSlugVector T b) (tsquery T text)

/-- The bookmarks whose search vector holds every word, if `asked`. -/
def wideRows (asked : Bool) : List Bookmark :=
  selected c a w fun b => fullTextMatch (searchVector T b) (tsquery T text) && asked

/-- The bookmarks whose title resembles the text, if `asked`. -/
def fuzzyTitleRows (asked : Bool) : List Bookmark :=
  selected c a w fun b => resembles T text b.title && asked

/-- The bookmarks whose host resembles the text, if `asked`. -/
def fuzzyHostRows (asked : Bool) : List Bookmark :=
  selected c a w fun b => resembles T text b.host && asked

/-- The rows of a branch as hits of its tier. -/
def hits (tier : ℕ) (score : Bookmark → σ) (l : List Bookmark) : List (Hit σ) := l.map fun b => ⟨b, tier, score b⟩

/-! ## `sys_search` -/

/-- The hits of a text of fewer than three characters. -/
def shortHits (n : ℕ) : List (Hit σ) :=
  let found :=
    hits 1 (fun _ => T.zero) (top (titleOrder T) n (slugRows c a w text)) ++
    hits 2 (fun _ => T.zero) (top (titleOrder T) n (prefixRows c a w text)) ++
    hits 3 (fun _ => T.zero) (top (titleOrder T) n (titleRows T c a w text))
  (ranked (Hit.shortRank T) (distinctHits found)).take n

/-- The rows `head`. -/
def headHits (n : ℕ) : List (Hit σ) :=
  distinctHits
    (hits 1 (fun _ => T.zero) (top (titleOrder T) n (slugRows c a w text)) ++
    hits 2 (fun _ => T.zero) (top (titleOrder T) n (prefixRows c a w text)) ++
    hits 3 (textScore T (tsquery T text)) (top (scoreOrder T (tsquery T text)) n (wordRows T c a w text)))

variable (windows : Windows)

/-- The rows `wide`. -/
def wideHits (n : ℕ) : List (Hit σ) :=
  hits 4 (textScore T (tsquery T text)) (top (scoreOrder T (tsquery T text)) n
    (windows.wide.rows (wideRows T c a w text (decide ((headHits T c a w text n).length < n)))))

/-- The rows `strong`. -/
def strongHits (n : ℕ) : List (Hit σ) :=
  distinctHits (headHits T c a w text n ++ wideHits T c a w text windows n)

/-- The rows `fuzzy`. -/
def fuzzyHits (n : ℕ) : List (Hit σ) :=
  let asked := decide ((strongHits T c a w text windows n).length < n)
  hits 5 (fun b => T.wordSimilarity text b.title) (windows.title.rows (fuzzyTitleRows T c a w text asked)) ++
    hits 5 (fun b => T.wordSimilarity text b.host) (windows.host.rows (fuzzyHostRows T c a w text asked))

/-- The hits of a text of three characters and more. -/
def longHits (n : ℕ) : List (Hit σ) :=
  (ranked (Hit.rank T) (distinctHits
    (strongHits T c a w text windows n ++ fuzzyHits T c a w text windows n))).take n

/-- The hits `sys_search(p_query, p_limit)` answers. -/
def searchHits (s : Session) (query : Option String) (limit : Option ℤ) : List (Hit σ) :=
  match s.appWorkspaceId, s.appAccountId with
  | some w, some a =>
    if searchText T query = "" ∨ searchLimit limit = 0 then []
    else if isShort (searchText T query) then shortHits T c a w (searchText T query) (searchLimit limit)
    else longHits T c a w (searchText T query) windows (searchLimit limit)
  | _, _ => []

/-- A row of the search. -/
structure SearchRow where
  id : Uuid
  title : String
  url : String
  host : String
  slug : Option String
  forwarding : Bool
  pinned : Bool
  deriving DecidableEq, Repr

/-- The columns the search shows of a bookmark. -/
def searchRow (s : Session) (b : Bookmark) : SearchRow :=
  ⟨b.id, b.title, b.url, b.host, b.slug, b.forwarding, b.pinnedAt.isSome && decide (b.ownerId = s.appAccountId)⟩

/-- `sys_search(p_query, p_limit)`. -/
def sysSearch (s : Session) (query : Option String) (limit : Option ℤ) : List SearchRow :=
  (searchHits T c windows s query limit).map fun h => searchRow s h.bookmark

/-! ## `sys_bookmark_match` -/

/-- The matches of a text of fewer than three characters. -/
def shortMatches : List Uuid :=
  (selected c a w fun b => slugPrefixed text b || T.ilikePrefix text b.title).map Bookmark.id

/-- The rows `strong`. -/
def strongMatches : List Uuid :=
  (selected c a w fun b => slugPrefixed text b || fullTextMatch (searchVector T b) (tsquery T text)).map Bookmark.id

/-- The rows `fuzzy`. -/
def fuzzyMatches : List Uuid :=
  (selected c a w fun b => (resembles T text b.title || resembles T text b.host) &&
    (strongMatches T c a w text).isEmpty).map Bookmark.id

/-- `sys_bookmark_match(p_query)`. -/
def sysBookmarkMatch (s : Session) (query : Option String) : List Uuid :=
  match s.appWorkspaceId, s.appAccountId with
  | some w, some a =>
    if searchText T query = "" then []
    else if isShort (searchText T query) then shortMatches T c a w (searchText T query)
    else strongMatches T c a w (searchText T query) ++ fuzzyMatches T c a w (searchText T query)
  | _, _ => []

/-! ## `sys_go_suggest` -/

/-- `v_prefix`. -/
def suggestText (query : Option String) : String := T.lower (String.ofList (btrim (query.getD "").toList))

/-- The number of suggestions. -/
def suggestLimit : ℕ := 10

/-- `slug COLLATE "C", id`; a suggestion has a slug. -/
def slugOrder (r : Bookmark × Access) : String ×ₗ ℕ := toLex (r.1.slug.getD "", r.1.id)

/-- `access <> 'owner', slug COLLATE "C", id`. -/
def suggestOrder (r : Bookmark × Access) : Bool ×ₗ (String ×ₗ ℕ) := toLex (decide (r.2 ≠ .owner), slugOrder r)

/-- The bookmarks `sys_go_suggest(p_prefix)` answers, with their access. -/
def goSuggestHits (s : Session) (query : Option String) : List (Bookmark × Access) :=
  match s.appWorkspaceId, s.appAccountId with
  | some w, some a =>
    if suggestText T query = "" then []
    else (ranked suggestOrder
      (top slugOrder suggestLimit (goSuggestOwn c a w (suggestText T query)) ++
        top slugOrder suggestLimit (goSuggestShared c a w (suggestText T query)))).take suggestLimit
  | _, _ => []

/-- A row of the suggestions. -/
structure Suggestion where
  id : Uuid
  slug : Option String
  title : String
  host : String
  ownerId : Option Uuid
  ownerName : Option String
  access : Access
  deriving DecidableEq, Repr

/-- The columns the palette shows of a suggestion, with the names of the accounts. -/
def suggestionRow (displayName : Uuid → Option String) (r : Bookmark × Access) : Suggestion :=
  ⟨r.1.id, r.1.slug, r.1.title, r.1.host, r.1.ownerId, r.1.ownerId.bind displayName, r.2⟩

/-- `sys_go_suggest(p_prefix)`. -/
def sysGoSuggest (displayName : Uuid → Option String) (s : Session) (query : Option String) : List Suggestion :=
  (goSuggestHits T c s query).map (suggestionRow displayName)

end

end SlugBase.Search
