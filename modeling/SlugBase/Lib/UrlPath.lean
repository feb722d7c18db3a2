import SlugBase.Lib.PercentEncode
import Mathlib.Data.List.DropRight

/-!
# URLs from a path

The parser of the URL Standard on texts that begin with one slash, against an https origin.

* `resolve`, `atOrigin`: the URL of a text, its dot segments removed and its parts encoded;
* **`isDot_percentEncode`**: encoding makes no dot segment;
* **`atOrigin_path`**: the path, query and fragment of a URL are read as they were written;
* **`length_path`**: how long they are.
-/

namespace UrlStandard

open JavaScript

/-! ## The parser -/

/-- An ASCII letter in lower case. -/
def lowerAscii (u : UInt16) : UInt16 := if 0x41 ≤ u && u ≤ 0x5A then u + 0x20 else u

/-- A single-dot segment. -/
def isSingleDot (segment : JsString) : Bool := [js ".", js "%2e"].contains (segment.map lowerAscii)

/-- A double-dot segment. -/
def isDoubleDot (segment : JsString) : Bool :=
  [js "..", js ".%2e", js "%2e.", js "%2e%2e"].contains (segment.map lowerAscii)

/-- The segments that are left without dot segments; encoding a segment makes it no dot segment. -/
def withoutDots : List JsString → List JsString → List JsString
  | path, [] => path
  | path, [last] =>
    if isDoubleDot last then path.dropLast ++ [[]] else if isSingleDot last then path ++ [[]] else path ++ [last]
  | path, segment :: next :: rest =>
    if isDoubleDot segment then withoutDots path.dropLast (next :: rest)
    else if isSingleDot segment then withoutDots path (next :: rest)
    else withoutDots (path ++ [segment]) (next :: rest)

/-- The slash and, in a special URL, the backslash. -/
def isSlash (u : UInt16) : Bool := u == 0x2F || u == 0x5C

/-- The segments of a path. -/
def splitSlash : JsString → List JsString
  | [] => [[]]
  | u :: rest =>
    if isSlash u then [] :: splitSlash rest
    else
      match splitSlash rest with
      | [] => [[u]]
      | segment :: segments => (u :: segment) :: segments

/-- A text without the spaces and controls at its end, the tabs and the line breaks. -/
def cleaned (value : JsString) : JsString :=
  (value.rdropWhile fun u => u ≤ 0x20).filter fun u => !(u == 0x09 || u == 0x0A || u == 0x0D)

/-- A text that begins with one slash. -/
def isPathAbsolute : JsString → Bool
  | [] => false
  | [u] => u == 0x2F
  | u :: v :: _ => u == 0x2F && !isSlash v

/-- The text before its fragment. -/
def beforeFragment (s : JsString) : JsString := s.takeWhile (· != 0x23)

/-- The path, without its first slash, as it is written. -/
def pathPart (s : JsString) : JsString := ((beforeFragment s).takeWhile (· != 0x3F)).drop 1

/-- The query, as it is written. -/
def queryPart (s : JsString) : JsString := ((beforeFragment s).dropWhile (· != 0x3F)).drop 1

/-- The fragment, as it is written. -/
def fragmentPart (s : JsString) : JsString := (s.dropWhile (· != 0x23)).drop 1

/-- The segments of the path that are kept. -/
def keptSegments (s : JsString) : List JsString := withoutDots [] (splitSlash (pathPart s))

/-- A part after its mark; nothing when it is empty. -/
def marked (mark : UInt16) (inSet : UInt16 → Bool) (part : JsString) : JsString :=
  if part = [] then [] else mark :: percentEncode inSet part

/-- A URL, as far as it is read. -/
@[ext]
structure ResolvedUrl where
  origin : JsString
  username : JsString
  password : JsString
  pathname : JsString
  search : JsString
  hash : JsString
deriving DecidableEq

/-- The path, query and fragment of a URL. -/
def ResolvedUrl.path (url : ResolvedUrl) : JsString := url.pathname ++ url.search ++ url.hash

/-- The URL of a text that begins with one slash, at an origin. -/
def atOrigin (base s : JsString) : ResolvedUrl where
  origin := base
  username := []
  password := []
  pathname := (keptSegments s).flatMap fun segment => 0x2F :: percentEncode inPathSet segment
  search := marked 0x3F inQuerySet (queryPart s)
  hash := marked 0x23 inFragmentSet (fragmentPart s)

/-- `new URL(value, base)` for an https origin; `elsewhere` parses the texts that do not begin with one slash. -/
def resolve (elsewhere : JsString → JsString → Option ResolvedUrl) (base value : JsString) :
    Option ResolvedUrl :=
  if isPathAbsolute (cleaned value) then some (atOrigin base (cleaned value)) else elsewhere base value

/-- The number of units of a part with its mark. -/
def markedSize (inSet : UInt16 → Bool) (part : JsString) : ℕ :=
  if part = [] then 0 else 1 + encodedSize inSet part

/-- The number of units the parts of a text take, its dot segments left out. -/
def writtenSize (s : JsString) : ℕ :=
  ((keptSegments s).map fun segment => 1 + encodedSize inPathSet segment).foldr (· + ·) 0 +
    (markedSize inQuerySet (queryPart s) + markedSize inFragmentSet (fragmentPart s))

/-! ## Dot segments -/

section

variable {inSet : UInt16 → Bool} {s : JsString}

/-- A segment of dots. -/
def isDot (segment : JsString) : Bool := isDoubleDot segment || isSingleDot segment

/-- A dot in hexadecimal. -/
def isDotCode : JsString → Bool
  | v :: w :: _ => v == 0x32 && w == 0x65
  | _ => false

/-- Whether a percent sign stands before anything but the code of a dot. -/
def hasOtherCode : JsString → Bool
  | [] => false
  | u :: rest => (u == 0x25 && !isDotCode rest) || hasOtherCode rest

theorem hasOtherCode_cons (u : UInt16) (s : JsString) :
    hasOtherCode (u :: s) = ((u == 0x25 && !isDotCode s) || hasOtherCode s) := rfl

theorem hasOtherCode_append_right (a : JsString) {b : JsString} (h : hasOtherCode b = true) :
    hasOtherCode (a ++ b) = true := by
  induction a with
  | nil => exact h
  | cons u rest ih =>
    rw [List.cons_append, hasOtherCode_cons, ih, Bool.or_true]

theorem hasOtherCode_dot {segment : JsString} (h : isDot segment = true) :
    hasOtherCode (segment.map lowerAscii) = false := by
  simp only [isDot, isDoubleDot, isSingleDot, Bool.or_eq_true, List.contains_iff_mem, List.mem_cons,
    List.not_mem_nil, or_false] at h
  rcases h with (h | h | h | h) | (h | h) <;> rw [h] <;> decide

/-- **Encoding makes no dot segment.** -/
theorem isDot_percentEncode (hset : Leaves inSet) (h : isDot (percentEncode inSet s) = true) :
    isDot s = true := by
  have hcodes := hasOtherCode_dot h
  have hplain : ∀ p ∈ codePoints s, isPlainPiece inSet p = true := by
    intro p hp
    by_contra hcoded
    rw [Bool.not_eq_true] at hcoded
    obtain ⟨before, after, hsplit⟩ := List.append_of_mem hp
    have htext : percentEncode inSet s = before.flatMap (encodePiece inSet) ++
        (encodePiece inSet p ++ after.flatMap (encodePiece inSet)) := by
      rw [percentEncode, hsplit, List.flatMap_append, List.flatMap_cons]
    cases hbytes : String.utf8EncodeChar (charOf p) with
    | nil => exact utf8EncodeChar_ne_nil _ hbytes
    | cons b rest =>
      have hb : b ∈ String.utf8EncodeChar (charOf p) := hbytes ▸ List.mem_cons_self
      have hdot : isPlain inSet 0x2E = true := hset.plain (by decide)
      have hno : b.toNat ≠ 0x2E := byte_of_encoded (isPiece_of_mem hp) hcoded hb hdot
      have hpiece : encodePiece inSet p =
          0x25 :: upperHex (b.toNat / 16) :: upperHex (b.toNat % 16) :: rest.flatMap percentEncoded := by
        rw [encodePiece, if_neg (by rw [hcoded]; decide), hbytes, List.flatMap_cons]
        rfl
      have hother : hasOtherCode ((percentEncode inSet s).map lowerAscii) = true := by
        rw [htext, hpiece, List.map_append]
        refine hasOtherCode_append_right _ ?_
        have hfalse : (lowerAscii (upperHex (b.toNat / 16)) == 0x32 &&
            lowerAscii (upperHex (b.toNat % 16)) == 0x65) = false := by
          rw [← Bool.not_eq_true, Bool.and_eq_true, beq_iff_eq, beq_iff_eq]
          rintro ⟨hfirst, hsecond⟩
          have hlt := b.toNat_lt
          have hdigit : ∀ n < 16, decide ((lowerAscii (upperHex n) = 0x32 → upperHex n = 0x32) ∧
              (lowerAscii (upperHex n) = 0x65 → upperHex n = 0x45)) = true := by decide +kernel
          have hhigh := (of_decide_eq_true (hdigit (b.toNat / 16) (by omega))).1 hfirst
          have hlow := (of_decide_eq_true (hdigit (b.toNat % 16) (by omega))).2 hsecond
          exact hno ((code_facts hlt).2.2 hhigh hlow)
        rw [List.cons_append, List.map_cons, hasOtherCode_cons, List.cons_append, List.map_cons,
          List.cons_append, List.map_cons]
        rw [isDotCode, hfalse, show (lowerAscii 0x25 == 0x25) = true by decide]
        rfl
      rw [hother] at hcodes
      cases hcodes
  have hsame : percentEncode inSet s = s := by
    have hpieces : (codePoints s).map (encodePiece inSet) = codePoints s :=
      (List.map_congr_left fun p hp => if_pos (hplain p hp)).trans (List.map_id _)
    rw [percentEncode, List.flatMap_def, hpieces, codePoints_flatten]
  rwa [hsame] at h

end

/-! ## The segments of a path -/

section

variable {path segments : List JsString} {segment s : JsString} {u : UInt16}

theorem isDoubleDot_of_not_isDot (h : isDot segment = false) : isDoubleDot segment = false :=
  (Bool.or_eq_false_iff.mp h).1

theorem isSingleDot_of_not_isDot (h : isDot segment = false) : isSingleDot segment = false :=
  (Bool.or_eq_false_iff.mp h).2

theorem withoutDots_ne_nil (path : List JsString) (h : segments ≠ []) : withoutDots path segments ≠ [] := by
  induction segments generalizing path with
  | nil => exact absurd rfl h
  | cons segment rest ih =>
    cases rest with
    | nil =>
      unfold withoutDots
      split_ifs <;> exact List.append_ne_nil_of_right_ne_nil _ (List.cons_ne_nil _ _)
    | cons next rest =>
      unfold withoutDots
      split_ifs
      · exact ih _ (List.cons_ne_nil _ _)
      · exact ih _ (List.cons_ne_nil _ _)
      · exact ih _ (List.cons_ne_nil _ _)

/-- A segment that is kept was kept before, is empty or is no dot segment. -/
theorem mem_withoutDots (h : segment ∈ withoutDots path segments) :
    segment ∈ path ∨ segment = [] ∨ segment ∈ segments ∧ isDot segment = false := by
  induction segments generalizing path with
  | nil => exact .inl h
  | cons first rest ih =>
    have hfirst : isDoubleDot first = false → isSingleDot first = false → isDot first = false := by
      intro hdouble hsingle
      rw [isDot, hdouble, hsingle]
      rfl
    cases rest with
    | nil =>
      unfold withoutDots at h
      split_ifs at h with hdouble hsingle
      · rcases List.mem_append.mp h with hpath | hlast
        · exact .inl (List.dropLast_subset _ hpath)
        · exact .inr (.inl (List.mem_singleton.mp hlast))
      · rcases List.mem_append.mp h with hpath | hlast
        · exact .inl hpath
        · exact .inr (.inl (List.mem_singleton.mp hlast))
      · rcases List.mem_append.mp h with hpath | hlast
        · exact .inl hpath
        · obtain rfl := List.mem_singleton.mp hlast
          have hdot := hfirst (eq_false_of_ne_true hdouble) (eq_false_of_ne_true hsingle)
          exact .inr (.inr ⟨List.mem_cons_self, hdot⟩)
    | cons next rest =>
      unfold withoutDots at h
      split_ifs at h with hdouble hsingle
      · rcases ih h with hpath | hempty | ⟨hmem, hdot⟩
        · exact .inl (List.dropLast_subset _ hpath)
        · exact .inr (.inl hempty)
        · exact .inr (.inr ⟨List.mem_cons_of_mem _ hmem, hdot⟩)
      · rcases ih h with hpath | hempty | ⟨hmem, hdot⟩
        · exact .inl hpath
        · exact .inr (.inl hempty)
        · exact .inr (.inr ⟨List.mem_cons_of_mem _ hmem, hdot⟩)
      · rcases ih h with hpath | hempty | ⟨hmem, hdot⟩
        · rcases List.mem_append.mp hpath with hpath | hlast
          · exact .inl hpath
          · obtain rfl := List.mem_singleton.mp hlast
            have hdot := hfirst (eq_false_of_ne_true hdouble) (eq_false_of_ne_true hsingle)
            exact .inr (.inr ⟨List.mem_cons_self, hdot⟩)
        · exact .inr (.inl hempty)
        · exact .inr (.inr ⟨List.mem_cons_of_mem _ hmem, hdot⟩)

/-- Segments without dots are kept. -/
theorem withoutDots_of_plain (path : List JsString) (h : ∀ segment ∈ segments, isDot segment = false) :
    withoutDots path segments = path ++ segments := by
  induction segments generalizing path with
  | nil => exact (List.append_nil path).symm
  | cons segment rest ih =>
    have hdot := h segment List.mem_cons_self
    have hdouble := isDoubleDot_of_not_isDot hdot
    have hsingle := isSingleDot_of_not_isDot hdot
    cases rest with
    | nil => simp only [withoutDots, hdouble, hsingle, Bool.false_eq_true, if_false]
    | cons next rest =>
      simp only [withoutDots, hdouble, hsingle, Bool.false_eq_true, if_false]
      rw [ih (path ++ [segment]) fun other hother => h other (List.mem_cons_of_mem _ hother), List.append_assoc]
      rfl

theorem splitSlash_slash (h : isSlash u = true) (s : JsString) : splitSlash (u :: s) = [] :: splitSlash s := by
  simp only [splitSlash, h, if_true]

theorem splitSlash_ne_nil (s : JsString) : splitSlash s ≠ [] := by
  cases s with
  | nil => exact List.cons_ne_nil _ _
  | cons u rest =>
    unfold splitSlash
    by_cases hslash : isSlash u = true
    · rw [if_pos hslash]
      exact List.cons_ne_nil _ _
    · rw [if_neg hslash]
      cases splitSlash rest <;> exact List.cons_ne_nil _ _

theorem splitSlash_unit (h : isSlash u = false) (s : JsString) :
    ∃ first rest, splitSlash s = first :: rest ∧ splitSlash (u :: s) = (u :: first) :: rest := by
  cases hs : splitSlash s with
  | nil => exact absurd hs (splitSlash_ne_nil s)
  | cons first rest =>
    refine ⟨first, rest, rfl, ?_⟩
    simp only [splitSlash, h, Bool.false_eq_true, if_false, hs]

/-- The first segment begins the text, and every segment stands in it. -/
theorem splitSlash_within (s : JsString) :
    (∀ first rest, splitSlash s = first :: rest → first <+: s) ∧ ∀ segment ∈ splitSlash s, segment <:+: s := by
  induction s with
  | nil =>
    constructor
    · rintro first rest hsplit
      obtain ⟨rfl, -⟩ := List.cons.inj hsplit
      exact List.nil_prefix
    · intro segment hmem
      obtain rfl := List.mem_singleton.mp hmem
      exact List.nil_infix
  | cons u s ih =>
    cases hslash : isSlash u with
    | true =>
      rw [splitSlash_slash hslash]
      constructor
      · rintro first rest hsplit
        obtain ⟨rfl, -⟩ := List.cons.inj hsplit
        exact List.nil_prefix
      · intro segment hmem
        rcases List.mem_cons.mp hmem with rfl | hmem
        · exact List.nil_infix
        · exact List.infix_cons (ih.2 segment hmem)
    | false =>
      obtain ⟨first, rest, hrest, hsplit⟩ := splitSlash_unit hslash s
      rw [hsplit]
      have hfirst : u :: first <+: u :: s := (List.prefix_cons_inj u).mpr (ih.1 first rest hrest)
      constructor
      · rintro other more heq
        obtain ⟨rfl, -⟩ := List.cons.inj heq
        exact hfirst
      · intro segment hmem
        rcases List.mem_cons.mp hmem with rfl | hmem
        · exact hfirst.isInfix
        · exact List.infix_cons (ih.2 segment (hrest ▸ List.mem_cons_of_mem _ hmem))

theorem not_isSlash_of_mem (h : segment ∈ splitSlash s) (hu : u ∈ segment) : isSlash u = false := by
  induction s generalizing segment with
  | nil =>
    rw [List.mem_singleton.mp h] at hu
    cases hu
  | cons v s ih =>
    cases hslash : isSlash v with
    | true =>
      rw [splitSlash_slash hslash] at h
      rcases List.mem_cons.mp h with rfl | h
      · cases hu
      · exact ih h hu
    | false =>
      obtain ⟨first, rest, hrest, hsplit⟩ := splitSlash_unit hslash s
      rw [hsplit] at h
      rcases List.mem_cons.mp h with rfl | h
      · rcases List.mem_cons.mp hu with rfl | hu
        · exact hslash
        · exact ih (hrest ▸ List.mem_cons_self) hu
      · exact ih (hrest ▸ List.mem_cons_of_mem _ h) hu

theorem splitSlash_segment (h : ∀ u ∈ segment, isSlash u = false) : splitSlash segment = [segment] := by
  induction segment with
  | nil => rfl
  | cons u rest ih =>
    have hrest := ih fun v hv => h v (List.mem_cons_of_mem _ hv)
    obtain ⟨first, more, hsplit, hwhole⟩ := splitSlash_unit (h u List.mem_cons_self) rest
    rw [hrest] at hsplit
    obtain ⟨rfl, rfl⟩ := List.cons.inj hsplit
    exact hwhole

theorem splitSlash_append (h : ∀ u ∈ segment, isSlash u = false) (s : JsString) :
    splitSlash (segment ++ 0x2F :: s) = segment :: splitSlash s := by
  induction segment with
  | nil => exact splitSlash_slash (by decide) s
  | cons u rest ih =>
    have hrest := ih fun v hv => h v (List.mem_cons_of_mem _ hv)
    obtain ⟨first, more, hsplit, hwhole⟩ := splitSlash_unit (h u List.mem_cons_self) (rest ++ 0x2F :: s)
    rw [hrest] at hsplit
    obtain ⟨rfl, rfl⟩ := List.cons.inj hsplit
    exact hwhole

/-- **Segments that are written after a slash each are read again.** -/
theorem splitSlash_flatMap (hne : segments ≠ []) (h : ∀ segment ∈ segments, ∀ u ∈ segment, isSlash u = false) :
    splitSlash ((segments.flatMap fun segment => 0x2F :: segment).drop 1) = segments := by
  induction segments with
  | nil => exact absurd rfl hne
  | cons segment rest ih =>
    rw [List.flatMap_cons, List.cons_append, List.drop_succ_cons, List.drop_zero]
    have hsegment := h segment List.mem_cons_self
    cases rest with
    | nil =>
      rw [List.flatMap_nil, List.append_nil]
      exact splitSlash_segment hsegment
    | cons next rest =>
      have hrest := ih (List.cons_ne_nil _ _) fun other hother => h other (List.mem_cons_of_mem _ hother)
      rw [List.flatMap_cons, List.cons_append, List.drop_succ_cons, List.drop_zero] at hrest
      rw [List.flatMap_cons, List.cons_append, splitSlash_append hsegment, hrest]

end

/-! ## The parts of a text -/

section

variable {base s part segment : JsString} {inSet : UInt16 → Bool} {mark u : UInt16}

theorem beforeFragment_within (s : JsString) : beforeFragment s <:+: s := by
  have hstart : beforeFragment s <+: s := List.takeWhile_prefix _
  exact hstart.isInfix

theorem pathPart_within (s : JsString) : pathPart s <:+: s := by
  have hstart : (beforeFragment s).takeWhile (· != 0x3F) <+: beforeFragment s := List.takeWhile_prefix _
  exact ((List.drop_suffix 1 _).isInfix.trans hstart.isInfix).trans (beforeFragment_within s)

theorem queryPart_within (s : JsString) : queryPart s <:+: s :=
  ((List.drop_suffix 1 _).isInfix.trans (List.dropWhile_suffix _).isInfix).trans (beforeFragment_within s)

theorem fragmentPart_within (s : JsString) : fragmentPart s <:+: s :=
  (List.drop_suffix 1 _).isInfix.trans (List.dropWhile_suffix _).isInfix

theorem keptSegments_ne_nil (s : JsString) : keptSegments s ≠ [] := withoutDots_ne_nil [] (splitSlash_ne_nil _)

theorem mem_keptSegments (h : segment ∈ keptSegments s) :
    segment = [] ∨ segment ∈ splitSlash (pathPart s) ∧ isDot segment = false := by
  rcases mem_withoutDots h with hnone | hrest
  · cases hnone
  · exact hrest

theorem keptSegments_noSlash (h : segment ∈ keptSegments s) (hu : u ∈ segment) : isSlash u = false := by
  rcases mem_keptSegments h with rfl | ⟨hmem, -⟩
  · cases hu
  · exact not_isSlash_of_mem hmem hu

theorem keptSegments_noDot (h : segment ∈ keptSegments s) : isDot segment = false := by
  rcases mem_keptSegments h with rfl | ⟨-, hdot⟩
  · decide
  · exact hdot

theorem percentEncode_noSlash (h : ∀ u ∈ s, isSlash u = false) :
    ∀ u ∈ percentEncode inSet s, isSlash u = false := by
  intro u hu
  rcases mem_percentEncode hu with hcode | ⟨hmem, -⟩
  · have hall : codeUnits.all (fun u => !isSlash u) = true := by decide +kernel
    exact (Bool.not_eq_true' _).mp (List.all_eq_true.mp hall u hcode)
  · exact h u hmem

theorem marked_drop : (marked mark inSet part).drop 1 = percentEncode inSet part := by
  unfold marked
  by_cases hpart : part = []
  · rw [if_pos hpart, hpart]
    rfl
  · rw [if_neg hpart]
    rfl

theorem marked_while (mark : UInt16) (inSet : UInt16 → Bool) (part : JsString) :
    (marked mark inSet part).takeWhile (· != mark) = [] ∧
      (marked mark inSet part).dropWhile (· != mark) = marked mark inSet part := by
  have hmark : ¬ (mark != mark) = true := by rw [bne_self_eq_false]; decide
  unfold marked
  by_cases hpart : part = []
  · rw [if_pos hpart]
    exact ⟨rfl, rfl⟩
  · rw [if_neg hpart]
    exact ⟨List.takeWhile_cons_of_neg hmark, List.dropWhile_cons_of_neg hmark⟩

theorem marked_head (h : (marked mark inSet part).head? = some u) : u = mark := by
  unfold marked at h
  by_cases hpart : part = []
  · rw [if_pos hpart] at h
    cases h
  · rw [if_neg hpart] at h
    exact (Option.some.inj h).symm

theorem marked_percentEncode (hset : Leaves inSet) :
    marked mark inSet (percentEncode inSet part) = marked mark inSet part := by
  unfold marked
  by_cases hpart : part = []
  · rw [if_pos hpart, if_pos (percentEncode_eq_nil.mpr hpart)]
  · rw [if_neg hpart, if_neg fun hnil => hpart (percentEncode_eq_nil.mp hnil), percentEncode_idempotent hset]

theorem mem_marked (h : u ∈ marked mark inSet part) : u = mark ∨ u ∈ percentEncode inSet part := by
  unfold marked at h
  by_cases hpart : part = []
  · rw [if_pos hpart] at h
    cases h
  · rw [if_neg hpart] at h
    exact List.mem_cons.mp h

/-! ## The written URL -/

theorem atOrigin_pathname (base s : JsString) :
    (atOrigin base s).pathname =
      ((keptSegments s).map (percentEncode inPathSet)).flatMap fun segment => 0x2F :: segment := by
  rw [List.flatMap_map]
  rfl

theorem mem_pathname (h : u ∈ (atOrigin base s).pathname) :
    u = 0x2F ∨ isSlash u = false ∧ isPlain inPathSet u = true := by
  obtain ⟨segment, hsegment, hu⟩ := List.mem_flatMap.mp h
  rcases List.mem_cons.mp hu with rfl | hu
  · exact .inl rfl
  · refine .inr ⟨percentEncode_noSlash (fun u hu => keptSegments_noSlash hsegment hu) u hu, ?_⟩
    exact plain_of_mem_percentEncode leaves_path hu

theorem pathname_noMark (h : u ∈ (atOrigin base s).pathname) : u ≠ 0x23 ∧ u ≠ 0x3F := by
  rcases mem_pathname h with rfl | ⟨-, hplain⟩
  · decide
  · constructor
    · rintro rfl
      exact absurd hplain (by decide)
    · rintro rfl
      exact absurd hplain (by decide)

theorem search_noMark (h : u ∈ (atOrigin base s).search) : u ≠ 0x23 := by
  rcases mem_marked h with rfl | hmem
  · decide
  · rintro rfl
    exact absurd (plain_of_mem_percentEncode leaves_query hmem) (by decide)

theorem beforeFragment_path (base s : JsString) :
    beforeFragment (atOrigin base s).path = (atOrigin base s).pathname ++ (atOrigin base s).search ∧
      fragmentPart (atOrigin base s).path = percentEncode inFragmentSet (fragmentPart s) := by
  have hnone : ∀ u ∈ (atOrigin base s).pathname ++ (atOrigin base s).search, (u != 0x23) = true := by
    intro u hu
    rcases List.mem_append.mp hu with hpath | hsearch
    · exact bne_iff_ne.mpr (pathname_noMark hpath).1
    · exact bne_iff_ne.mpr (search_noMark hsearch)
  have hhash : (atOrigin base s).hash.takeWhile (· != 0x23) = [] ∧
      (atOrigin base s).hash.dropWhile (· != 0x23) = (atOrigin base s).hash := marked_while _ _ _
  constructor
  · rw [beforeFragment, ResolvedUrl.path, List.takeWhile_append_of_pos hnone, hhash.1, List.append_nil]
  · rw [fragmentPart, ResolvedUrl.path, List.dropWhile_append_of_pos hnone, hhash.2]
    exact marked_drop

theorem parts_path (base s : JsString) :
    pathPart (atOrigin base s).path = (atOrigin base s).pathname.drop 1 ∧
      queryPart (atOrigin base s).path = percentEncode inQuerySet (queryPart s) := by
  have hnone : ∀ u ∈ (atOrigin base s).pathname, (u != 0x3F) = true := fun u hu =>
    bne_iff_ne.mpr (pathname_noMark hu).2
  have hsearch : (atOrigin base s).search.takeWhile (· != 0x3F) = [] ∧
      (atOrigin base s).search.dropWhile (· != 0x3F) = (atOrigin base s).search := marked_while _ _ _
  constructor
  · rw [pathPart, (beforeFragment_path base s).1, List.takeWhile_append_of_pos hnone, hsearch.1,
    List.append_nil]
  · rw [queryPart, (beforeFragment_path base s).1, List.dropWhile_append_of_pos hnone, hsearch.2]
    exact marked_drop

theorem keptSegments_path (base s : JsString) :
    keptSegments (atOrigin base s).path = (keptSegments s).map (percentEncode inPathSet) := by
  have hslash : ∀ segment ∈ (keptSegments s).map (percentEncode inPathSet),
      ∀ u ∈ segment, isSlash u = false := by
    intro segment hsegment
    obtain ⟨raw, hraw, rfl⟩ := List.mem_map.mp hsegment
    exact percentEncode_noSlash fun u hu => keptSegments_noSlash hraw hu
  have hdot : ∀ segment ∈ (keptSegments s).map (percentEncode inPathSet), isDot segment = false := by
    intro segment hsegment
    obtain ⟨raw, hraw, rfl⟩ := List.mem_map.mp hsegment
    rw [← Bool.not_eq_true]
    intro hencoded
    have hdots := isDot_percentEncode leaves_path hencoded
    rw [keptSegments_noDot hraw] at hdots
    cases hdots
  have hne : (keptSegments s).map (percentEncode inPathSet) ≠ [] := fun hnil =>
    keptSegments_ne_nil s (List.map_eq_nil_iff.mp hnil)
  rw [keptSegments, (parts_path base s).1, atOrigin_pathname, splitSlash_flatMap hne hslash,
    withoutDots_of_plain [] hdot, List.nil_append]

/-- **What is written is read as it was.** -/
theorem atOrigin_path (base other s : JsString) : atOrigin base (atOrigin other s).path = atOrigin base s := by
  have hpath : (atOrigin base (atOrigin other s).path).pathname = (atOrigin base s).pathname := by
    rw [atOrigin_pathname, atOrigin_pathname, keptSegments_path, List.map_map]
    have hsame : percentEncode inPathSet ∘ percentEncode inPathSet = percentEncode inPathSet :=
      funext fun segment => percentEncode_idempotent leaves_path
    rw [hsame]
  have hsearch : (atOrigin base (atOrigin other s).path).search = (atOrigin base s).search := by
    show marked _ _ (queryPart _) = _
    rw [(parts_path other s).2]
    exact marked_percentEncode leaves_query
  have hhash : (atOrigin base (atOrigin other s).path).hash = (atOrigin base s).hash := by
    show marked _ _ (fragmentPart _) = _
    rw [(beforeFragment_path other s).2]
    exact marked_percentEncode leaves_fragment
  exact ResolvedUrl.ext rfl rfl rfl hpath hsearch hhash

theorem pathname_cons (base s : JsString) : ∃ rest, (atOrigin base s).pathname = 0x2F :: rest := by
  rw [atOrigin_pathname]
  cases hsegments : (keptSegments s).map (percentEncode inPathSet) with
  | nil => exact absurd (List.map_eq_nil_iff.mp hsegments) (keptSegments_ne_nil s)
  | cons segment rest => exact ⟨_, rfl⟩

theorem head_path (base s : JsString) : (atOrigin base s).path.head? = some 0x2F := by
  obtain ⟨rest, hrest⟩ := pathname_cons base s
  rw [ResolvedUrl.path, hrest]
  rfl

theorem isPathAbsolute_cons (h : ∀ v, s.head? = some v → isSlash v = false) :
    isPathAbsolute (0x2F :: s) = true := by
  cases s with
  | nil => rfl
  | cons v rest =>
    simp only [isPathAbsolute, h v rfl]
    decide

theorem length_marked (mark : UInt16) (inSet : UInt16 → Bool) (part : JsString) :
    (marked mark inSet part).length = markedSize inSet part := by
  unfold marked markedSize
  by_cases hpart : part = []
  · rw [if_pos hpart, if_pos hpart]
    rfl
  · rw [if_neg hpart, if_neg hpart, List.length_cons, length_percentEncode, Nat.add_comm]

/-- **The length of what is written.** -/
theorem length_path (base s : JsString) : (atOrigin base s).path.length = writtenSize s := by
  have hsegments : ∀ segments : List JsString,
      (segments.flatMap fun segment => 0x2F :: percentEncode inPathSet segment).length =
        (segments.map fun segment => 1 + encodedSize inPathSet segment).foldr (· + ·) 0 := by
    intro segments
    induction segments with
    | nil => rfl
    | cons segment rest ih =>
      rw [List.flatMap_cons, List.length_append, ih, List.map_cons, List.foldr_cons, List.length_cons,
        length_percentEncode, Nat.add_comm 1]
  rw [ResolvedUrl.path, List.length_append, List.length_append, Nat.add_assoc]
  show List.length (List.flatMap _ _) + (List.length (marked _ _ _) + List.length (marked _ _ _)) = _
  rw [hsegments, length_marked, length_marked]
  rfl

end

end UrlStandard
