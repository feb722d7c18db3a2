import SlugBase.Lib.JsUri
import Mathlib.Data.List.Sort

/-!
# The URL of a bookmark

What is stored, the canonical form that detects duplicates, and the host. Only `http` and `https` are
ever stored; everything else is refused before a value reaches a table.

* `normalizeBookmarkUrl`: the stored form, the canonical form and the host, or why it is refused;
* **`normalizeBookmarkUrl_ok`**: what is accepted is an `http` or `https` URL with a host, as short as a
  bookmark's URL may be.

The parser of the URL Standard is the runtime's, a parameter here.
-/

namespace SlugBase

open JavaScript

/-- What the parser of the URL Standard reads of a URL. -/
structure ParsedUrl where
  href : JsString
  protocol : JsString
  host : JsString
  hostname : JsString
  pathname : JsString
  search : JsString
  deriving DecidableEq, Repr

/-- The longest URL a bookmark holds, in characters. -/
def bookmarkUrlMaxLength : ℕ := 2048

inductive BookmarkUrlRefusal
  | empty
  | tooLong
  | notHttp
  | malformed
  deriving DecidableEq, Repr

/-- The URL as stored, the key of duplicate detection, and the host name. -/
structure BookmarkUrl where
  url : JsString
  canonical : JsString
  host : JsString
  deriving DecidableEq, Repr

/-- The tab, the line feed, the form feed, the carriage return and the space. -/
def isEdgeWhitespace (u : UInt16) : Bool := u == 0x09 || u == 0x0A || u == 0x0C || u == 0x0D || u == 0x20

def trimEdgeWhitespace (value : JsString) : JsString :=
  (value.dropWhile isEdgeWhitespace).rdropWhile isEdgeWhitespace

/-- An ASCII letter in lower case, for the patterns that disregard case. -/
def asciiLower (u : UInt16) : UInt16 := if 0x41 ≤ u && u ≤ 0x5A then u + 0x20 else u

/-- Whether the text begins with the prefix, whatever the case of its letters. -/
def hasPrefix (p value : JsString) : Bool := (value.take p.length).map asciiLower == p

/-- `HTTP_PREFIX`. -/
def hasHttpPrefix (value : JsString) : Bool :=
  hasPrefix (js "http://") value || hasPrefix (js "https://") value

/-- What a dot of a pattern does not match. -/
def isLineTerminator (u : UInt16) : Bool := u == 0x0A || u == 0x0D || u == 0x2028 || u == 0x2029

/-- `TRACKING_PARAMETER`: a name that begins with `utm_`, or that is `fbclid` or `gclid`. -/
def isTrackingParameter (name : JsString) : Bool :=
  (hasPrefix (js "utm_") name && !(name.drop 4).any isLineTerminator) ||
    name.map asciiLower == js "fbclid" || name.map asciiLower == js "gclid"

/-- The name of a query pair as it is written. -/
def rawName (pair : JsString) : JsString := pair.takeWhile (· != 0x3D)

/-- The value of a query pair as it is written. -/
def rawValue (pair : JsString) : JsString := (pair.dropWhile (· != 0x3D)).drop 1

/-- The name of a query pair, decoded where it can be. -/
def parameterName (pair : JsString) : JsString :=
  (decodeURIComponent ((rawName pair).map fun u => if u = 0x2B then 0x20 else u)).getD (rawName pair)

/-- Query pairs by name, then by value. -/
def pairLe (a b : JsString) : Prop := rawName a < rawName b ∨ (rawName a = rawName b ∧ ¬ rawValue b < rawValue a)

instance : DecidableRel pairLe := fun a b => by unfold pairLe; infer_instance

/-- The pairs of the query that are no tracking parameters, in the order of the file. -/
def keptPairs (search : JsString) : List JsString :=
  ((search.drop 1).splitOn 0x26).filter fun pair => pair != [] && !isTrackingParameter (parameterName pair)

/-- The query without tracking parameters, the rest sorted; empty when nothing is left. -/
def canonicalQuery (search : JsString) : JsString :=
  match (keptPairs search).insertionSort pairLe with
  | [] => []
  | pairs => 0x3F :: List.intercalate [0x26] pairs

/-- The canonical form of a parsed URL. -/
def canonicalOf (parsed : ParsedUrl) : JsString :=
  parsed.protocol ++ js "//" ++ parsed.host ++ parsed.pathname.rdropWhile (· == 0x2F) ++ canonicalQuery parsed.search

/-- Normalises `input` for storage and computes its canonical form and host, or says why it is refused. -/
def normalizeBookmarkUrl (parseUrl : JsString → Option ParsedUrl) (input : JsString) :
    Except BookmarkUrlRefusal BookmarkUrl :=
  let given := trimEdgeWhitespace input
  if given = [] then .error .empty
  else if !hasHttpPrefix given then .error .notHttp
  else if given.length > bookmarkUrlMaxLength then .error .tooLong
  else if given.any (fun u => u ≤ 0x1F || u == 0x7F) then .error .malformed
  else match parseUrl given with
    | none => .error .malformed
    | some parsed =>
      if (parsed.protocol != js "http:" && parsed.protocol != js "https:") || parsed.hostname == [] then
        .error .malformed
      else if parsed.href.length > bookmarkUrlMaxLength then .error .tooLong
      else .ok ⟨parsed.href, canonicalOf parsed, parsed.hostname⟩

theorem normalizeBookmarkUrl_ok {parseUrl : JsString → Option ParsedUrl} {input : JsString} {v : BookmarkUrl}
    (h : normalizeBookmarkUrl parseUrl input = .ok v) :
    ∃ parsed, parseUrl (trimEdgeWhitespace input) = some parsed ∧
      (parsed.protocol = js "http:" ∨ parsed.protocol = js "https:") ∧ parsed.hostname ≠ [] ∧
      parsed.href.length ≤ bookmarkUrlMaxLength ∧ v = ⟨parsed.href, canonicalOf parsed, parsed.hostname⟩ := by
  simp only [normalizeBookmarkUrl] at h
  split at h
  · cases h
  split at h
  · cases h
  split at h
  · cases h
  split at h
  · cases h
  split at h
  · cases h
  rename_i parsed hparsed
  split at h
  · cases h
  rename_i hscheme
  split at h
  · cases h
  rename_i hlength
  have hv := (Except.ok.inj h).symm
  simp only [Bool.or_eq_true, Bool.and_eq_true, bne_iff_ne, ne_eq, beq_iff_eq, not_or, not_and, not_not] at hscheme
  obtain ⟨hprotocol, hhost⟩ := hscheme
  refine ⟨parsed, hparsed, ?_, hhost, Nat.le_of_not_lt hlength, hv⟩
  by_cases hhttp : parsed.protocol = js "http:"
  · exact .inl hhttp
  · exact .inr (hprotocol hhttp)

end SlugBase
