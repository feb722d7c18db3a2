import SlugBase.Lib.Stringify
import SlugBase.Lib.Utf8
import Mathlib.Data.List.GetD
import Mathlib.Data.List.Sort

/-!
# The hash of a request

What an idempotency key is compared by: the hash of what the request asks for, and the digest of an upload.

* `canonical`, `requestHash`: the request with its objects' members in a fixed order, and its hash;
* `uploadDigest`: the digest of the parts of an upload;
* `Same`: values that are one up to the order of members;
* **`requestHash_uploadDigest`**: which requests and which uploads share a hash.
-/

namespace SlugBase.Http

open JavaScript PrefixCode

/-! ## The request -/

/-- The number of an array index; none for any other name. -/
def arrayIndex (name : JsString) : Option ℕ :=
  if name ≠ [] ∧ name.all (fun u => 0x30 ≤ u && u ≤ 0x39) = true ∧ (name.head? = some 0x30 → name = [0x30]) then
    let value := name.foldl (fun n u => 10 * n + (u.toNat - 0x30)) 0
    if value < 4294967295 then some value else none
  else none

/-- The order of two names that are indices. -/
def indexLe (a b : JsString) : Prop := (arrayIndex a).getD 0 ≤ (arrayIndex b).getD 0

instance : DecidableRel indexLe := fun _ _ => inferInstanceAs (Decidable (_ ≤ _))

/-- The order in which an object has its own names: indices by their numbers, then the others as they were added. -/
def ownOrder (names : List JsString) : List JsString :=
  (names.filter fun name => (arrayIndex name).isSome).insertionSort indexLe ++ names.filter fun name => !(arrayIndex name).isSome

/-- `Object.entries(value).sort(..)`: the names, by their units. -/
def sortedNames (names : List JsString) : List JsString := names.insertionSort fun a b => a ≤ b

theorem ownOrder_perm (names : List JsString) : (ownOrder names).Perm names :=
  ((List.perm_insertionSort indexLe _).append_right _).trans (List.filter_append_perm (fun name => (arrayIndex name).isSome) names)

theorem canonicalNames_perm (names : List JsString) : (ownOrder (sortedNames names)).Perm names :=
  (ownOrder_perm _).trans (List.perm_insertionSort _ names)

/-- `canonical`. -/
def canonical : JsValue → JsValue
  | .undefined => .scalar .null
  | .scalar value => .scalar value
  | .array length item => .array length fun i => canonical (item i)
  | .object names distinct member =>
    .object (ownOrder (sortedNames names)) ((canonicalNames_perm names).nodup_iff.mpr distinct) fun name => canonical (member name)

/-- What a request asks for. -/
structure Asked where
  operationId : JsString
  workspaceId : Option JsString
  params : JsValue
  query : JsValue
  body : JsValue
  upload : Option JsString

/-- The values that are hashed. -/
def Asked.values (asked : Asked) : List JsValue :=
  [.text asked.operationId, (asked.workspaceId.map JsValue.text).getD (.scalar .null), asked.params, asked.query, asked.body] ++
    (asked.upload.map JsValue.text).toList

variable (sha256 : List UInt8 → List UInt8)

/-- `requestHash`. -/
def requestHash (asked : Asked) : List UInt8 := sha256 (utf8 (stringify (canonical (.ofList asked.values))))

/-! ## The upload -/

/-- A well-formed text, as form data has it. -/
structure UsvString where
  text : JsString
  wellFormed : WellFormed text

theorem UsvString.eq_of_utf8 {a b : UsvString} (h : utf8 a.text = utf8 b.text) : a = b := by
  cases a with
  | mk s hs =>
    cases b with
    | mk t ht =>
      obtain rfl : s = t := utf8_injective hs ht h
      rfl

/-- The value of a part: a text, or a file. -/
inductive PartValue
  | text (value : UsvString)
  | file (bytes : List UInt8) (fileName contentType : JsString)

/-- A part of form data. -/
structure Part where
  name : UsvString
  value : PartValue

/-- The body of an upload: form data, or bytes that are none. -/
inductive Upload
  | parts (parts : List Part)
  | bytes (bytes : List UInt8)

/-- The mark and the content of a part. -/
def PartValue.content : PartValue → UInt8 × List UInt8
  | .text value => (0x73, utf8 value.text)
  | .file bytes _ _ => (0x66, bytes)

/-- What is digested of a part. -/
def Part.digested (part : Part) : List UInt8 :=
  lengthPrefixed (utf8 part.name.text) ++ part.value.content.1 :: lengthPrefixed part.value.content.2

/-- `toString("hex")`. -/
def hex (bytes : List UInt8) : JsString := bytes.flatMap fun b => [lowerHex (b.toNat / 16), lowerHex (b.toNat % 16)]

/-- `uploadDigest`. -/
def uploadDigest : Upload → JsString
  | .parts parts => js "parts:" ++ hex (sha256 (parts.flatMap Part.digested))
  | .bytes bytes => js "bytes:" ++ hex (sha256 bytes)

/-! ## Equal requests and equal uploads -/

/-- A value as a scalar, where `undefined` is null. -/
def plain : JsValue → Option Scalar
  | .undefined => some .null
  | .scalar value => some value
  | _ => none

/-- Values that are one as JSON, up to the order of members; `undefined` counts as null. -/
inductive Same : JsValue → JsValue → Prop
  | scalar {v w : JsValue} {value : Scalar} (hv : plain v = some value) (hw : plain w = some value) : Same v w
  | array {length : ℕ} {item item' : ℕ → JsValue} (h : ∀ i < length, Same (item i) (item' i)) :
    Same (.array length item) (.array length item')
  | object {names names' : List JsString} {distinct : names.Nodup} {distinct' : names'.Nodup} {member member' : JsString → JsValue}
    (hnames : ∀ name, name ∈ names ↔ name ∈ names') (h : ∀ name ∈ names, Same (member name) (member' name)) :
    Same (.object names distinct member) (.object names' distinct' member')

/-- Requests that ask for the same. -/
structure SameAsked (a b : Asked) : Prop where
  operationId : a.operationId = b.operationId
  workspaceId : a.workspaceId = b.workspaceId
  params : Same a.params b.params
  query : Same a.query b.query
  body : Same a.body b.body
  upload : a.upload = b.upload

/-- Parts with one name and one content, both text or both files; a file's name and type are left out. -/
def SamePart (a b : Part) : Prop := a.name = b.name ∧ a.value.content = b.value.content

/-- Uploads with the same parts in the same order, or with the same bytes. -/
inductive SameUpload : Upload → Upload → Prop
  | parts {parts parts' : List Part} (h : List.Forall₂ SamePart parts parts') : SameUpload (.parts parts) (.parts parts')
  | bytes {bytes : List UInt8} : SameUpload (.bytes bytes) (.bytes bytes)

/-! ## The canonical text -/

theorem isUndefined_canonical (v : JsValue) : (canonical v).isUndefined = false := by
  cases v <;> rfl

theorem stringify_canonical_object {names : List JsString} (distinct : names.Nodup) (member : JsString → JsValue) :
    stringify (canonical (.object names distinct member)) =
      0x7B :: (joined ((ownOrder (sortedNames names)).map fun name => quote name ++ 0x3A :: stringify (canonical (member name))) ++
        [0x7D]) := by
  have hkept : (ownOrder (sortedNames names)).filter (fun name => !(canonical (member name)).isUndefined) =
      ownOrder (sortedNames names) := List.filter_eq_self.mpr fun name _ => by rw [isUndefined_canonical]; rfl
  rw [canonical, stringify, hkept]

theorem canonicalNames_eq {names names' : List JsString} (h : names.Perm names') :
    ownOrder (sortedNames names) = ownOrder (sortedNames names') := by
  have hsorted : sortedNames names = sortedNames names' := by
    refine List.Perm.eq_of_pairwise (fun a b _ _ hab hba => Std.le_antisymm hab hba)
      (List.pairwise_insertionSort _ names) (List.pairwise_insertionSort _ names') ?_
    exact ((List.perm_insertionSort _ names).trans h).trans (List.perm_insertionSort _ names').symm
  rw [hsorted]

/-- Equal values have one canonical text. -/
theorem stringify_canonical_of_same {v w : JsValue} (h : Same v w) : stringify (canonical v) = stringify (canonical w) := by
  induction h with
  | @scalar v w value hv hw =>
    have htext : ∀ {u : JsValue}, plain u = some value → stringify (canonical u) = scalarText value := by
      intro u hu
      cases u with
      | undefined =>
        obtain rfl := Option.some.inj hu
        rfl
      | scalar other =>
        obtain rfl := Option.some.inj hu
        rfl
      | array length item => cases hu
      | object names distinct member => cases hu
    rw [htext hv, htext hw]
  | @array length item item' _ ih =>
    simp only [canonical, stringify]
    rw [List.map_congr_left fun i hi => ih i (List.mem_range.mp hi)]
  | @object names names' distinct distinct' member member' hnames _ ih =>
    have hperm : names.Perm names' := (List.perm_ext_iff_of_nodup distinct distinct').mpr hnames
    rw [stringify_canonical_object, stringify_canonical_object, canonicalNames_eq hperm]
    rw [List.map_congr_left fun name hname => by
      rw [ih name (hperm.mem_iff.mpr ((canonicalNames_perm names').mem_iff.mp hname))]]

/-! ## Reading the canonical text -/

theorem scalarText_ne_bracket {value : Scalar} {u : UInt16} (hu : u = 0x5B ∨ u = 0x7B) (r r' : JsString) :
    scalarText value ++ r ≠ u :: r' := by
  obtain ⟨v, rest, hv, hmark⟩ := scalarText_head value
  rw [hv, List.cons_append]
  intro heq
  obtain rfl := (List.cons.inj heq).1
  rcases hu with rfl | rfl <;> rcases value with _ | (_ | _) | n | s <;>
    exact absurd hmark (by simp [markOf, isNumberUnit, scalarMark])

theorem value_cases (v : JsValue) :
    (∃ value, plain v = some value ∧ canonical v = .scalar value) ∨ (∃ length item, v = .array length item) ∨
      ∃ names distinct member, v = .object names distinct member := by
  cases v with
  | undefined => exact .inl ⟨.null, rfl, rfl⟩
  | scalar value => exact .inl ⟨value, rfl, rfl⟩
  | array length item => exact .inr (.inl ⟨length, item, rfl⟩)
  | object names distinct member => exact .inr (.inr ⟨names, distinct, member, rfl⟩)

/-- What a canonical text shows of its value, before anything that can follow a value. -/
def Shows (v : JsValue) : Prop :=
  ∀ w r r', Delimited r → Delimited r' → stringify (canonical v) ++ r = stringify (canonical w) ++ r' → Same v w ∧ r = r'

theorem shows_scalar {v : JsValue} {value : Scalar} (hv : plain v = some value) (hcanonical : canonical v = .scalar value) :
    Shows v := by
  intro w r r' hr hr' h
  rw [hcanonical, stringify] at h
  rcases value_cases w with ⟨other, hw, hother⟩ | ⟨length, item, rfl⟩ | ⟨names, distinct, member, rfl⟩
  · rw [hother, stringify] at h
    obtain ⟨rfl, hrest⟩ := scalarText_append hr hr' h
    exact ⟨.scalar hv hw, hrest⟩
  · exact absurd h (scalarText_ne_bracket (.inl rfl) _ _)
  · rw [stringify_canonical_object] at h
    exact absurd h (scalarText_ne_bracket (.inr rfl) _ _)

theorem shows_array {length : ℕ} {item : ℕ → JsValue} (ih : ∀ i, Shows (item i)) : Shows (.array length item) := by
  intro w r r' hr hr' h
  rcases value_cases w with ⟨other, -, hother⟩ | ⟨length', item', rfl⟩ | ⟨names, distinct, member, rfl⟩
  · rw [hother, stringify] at h
    exact absurd h.symm (scalarText_ne_bracket (.inl rfl) _ _)
  · simp only [canonical, stringify, List.cons_append, List.append_assoc, List.nil_append, List.cons.injEq, true_and] at h
    have hitems : List.Forall₂ (fun i j => Same (item i) (item' j)) (List.range length) (List.range length') ∧ r = r' :=
      joined_append (by rfl) (by decide) (fun i _ j _ => ih i (item' j)) (fun i _ => stringify_head _)
        (fun j _ => stringify_head _) h
    have hlength : length = length' := by simpa using hitems.1.length_eq
    subst hlength
    refine ⟨.array fun i hi => ?_, hitems.2⟩
    have hget := hitems.1.get (i := i) (by simpa using hi) (by simpa using hi)
    simpa using hget
  · rw [stringify_canonical_object] at h
    exact absurd (List.cons.inj h).1 (by decide)

theorem shows_object {names : List JsString} {distinct : names.Nodup} {member : JsString → JsValue} (ih : ∀ name, Shows (member name)) :
    Shows (.object names distinct member) := by
  intro w r r' hr hr' h
  rw [stringify_canonical_object] at h
  rcases value_cases w with ⟨other, -, hother⟩ | ⟨length, item, rfl⟩ | ⟨names', distinct', member', rfl⟩
  · rw [hother, stringify] at h
    exact absurd h.symm (scalarText_ne_bracket (.inr rfl) _ _)
  · exact absurd (List.cons.inj h).1 (by decide)
  · rw [stringify_canonical_object] at h
    simp only [List.cons_append, List.append_assoc, List.nil_append, List.cons.injEq, true_and] at h
    have hmembers : List.Forall₂ (fun a b => a = b ∧ Same (member a) (member' b)) (ownOrder (sortedNames names))
        (ownOrder (sortedNames names')) ∧ r = r' := by
      refine joined_append (by rfl) (by decide) ?_ ?_ ?_ h
      · intro a _ b _ s s' hs hs' heq
        simp only [List.append_assoc, List.cons_append] at heq
        obtain ⟨rfl, hcolon⟩ := quote_append heq
        obtain ⟨hsame, hrest⟩ := ih a (member' a) s s' hs hs' (List.cons.inj hcolon).2
        exact ⟨⟨rfl, hsame⟩, hrest⟩
      · intro a _ s
        exact (by decide : some (0x22 : UInt16) ≠ some 0x7D)
      · intro b _ s
        exact (by decide : some (0x22 : UInt16) ≠ some 0x7D)
    have hnames : ownOrder (sortedNames names) = ownOrder (sortedNames names') := by
      rw [← List.forall₂_eq_eq_eq]
      exact hmembers.1.imp fun a b hab => hab.1
    refine ⟨.object (fun name => ?_) (fun name hname => ?_), hmembers.2⟩
    · rw [← (canonicalNames_perm names).mem_iff, hnames, (canonicalNames_perm names').mem_iff]
    · have hmem := (canonicalNames_perm names).mem_iff.mpr hname
      have hrel := hmembers.1
      rw [← hnames, List.forall₂_same] at hrel
      exact (hrel name hmem).2

/-- **A canonical text shows its value, and where it ends.** -/
theorem shows (v : JsValue) : Shows v := by
  induction v with
  | undefined => exact shows_scalar rfl rfl
  | scalar value => exact shows_scalar rfl rfl
  | array length item ih => exact shows_array ih
  | object names distinct member ih => exact shows_object ih

/-- **Canonical texts are equal for equal values alone.** -/
theorem stringify_canonical_iff {v w : JsValue} : stringify (canonical v) = stringify (canonical w) ↔ Same v w := by
  refine ⟨fun h => ?_, stringify_canonical_of_same⟩
  have hnil : Delimited [] := fun u hu => (by cases hu)
  exact (shows v w [] [] hnil hnil (by rw [List.append_nil, List.append_nil, h])).1

/-! ## The bytes that are hashed -/

theorem wellFormed_plain {s : JsString} (h : s.all (fun u => !isHighSurrogate u && !isLowSurrogate u) = true) : WellFormed s := by
  refine wellFormed_of_units fun u hu => ?_
  have hunit := List.all_eq_true.mp h u hu
  simpa only [Bool.and_eq_true, Bool.not_eq_true'] using hunit

theorem wellFormed_lowerHex {n : ℕ} (h : n < 16) : WellFormed [lowerHex n] := by
  have hall : ∀ n < 16, [lowerHex n].all (fun u => !isHighSurrogate u && !isLowSurrogate u) = true := by decide
  exact wellFormed_plain (hall n h)

theorem wellFormed_escapeUnit (u : UInt16) : WellFormed (escapeUnit u) := by
  have hu := u.toNat_lt
  unfold escapeUnit
  split_ifs with h1 h2 h3 h4 h5 h6 h7 h8
  · exact .unit rfl rfl (.unit rfl rfl .nil)
  · exact .unit rfl rfl (.unit rfl rfl .nil)
  · exact .unit rfl rfl (.unit rfl rfl .nil)
  · exact .unit rfl rfl (.unit rfl rfl .nil)
  · exact .unit rfl rfl (.unit rfl rfl .nil)
  · exact .unit rfl rfl (.unit rfl rfl .nil)
  · exact .unit rfl rfl (.unit rfl rfl .nil)
  · have hdigits := (wellFormed_lowerHex (n := u.toNat / 4096) (by omega)).append
      ((wellFormed_lowerHex (n := u.toNat / 256 % 16) (by omega)).append
        ((wellFormed_lowerHex (n := u.toNat / 16 % 16) (by omega)).append (wellFormed_lowerHex (n := u.toNat % 16) (by omega))))
    exact .unit rfl rfl (.unit rfl rfl hdigits)
  · simp only [not_or, Bool.not_eq_true] at h8
    exact .unit h8.2.1 h8.2.2 .nil

theorem wellFormed_quote (s : JsString) : WellFormed (quote s) := by
  refine .unit rfl rfl (WellFormed.append (WellFormed.flatMap fun p hp => ?_) (.unit rfl rfl .nil))
  rcases isPiece_of_mem hp with ⟨u, rfl⟩ | ⟨u, v, rfl, hhigh, hlow⟩
  · exact wellFormed_escapeUnit u
  · exact .pair hhigh hlow .nil

theorem wellFormed_scalarText (value : Scalar) : WellFormed (scalarText value) := by
  rcases value with _ | (_ | _) | n | s
  · exact wellFormed_plain (by decide)
  · exact wellFormed_plain (by decide)
  · exact wellFormed_plain (by decide)
  · refine wellFormed_of_units fun u hu => ?_
    have hunit := n.units u hu
    simp only [isNumberUnit, Bool.or_eq_true, Bool.and_eq_true, decide_eq_true_eq, beq_iff_eq, UInt16.le_iff_toNat_le] at hunit
    constructor
    · rw [← Bool.not_eq_true]
      intro hhigh
      have hbounds := high_bounds hhigh
      rcases hunit with (((h | rfl) | rfl) | rfl) | rfl
      · have h39 : (0x39 : UInt16).toNat = 57 := rfl
        omega
      all_goals exact absurd hhigh (by decide)
    · rw [← Bool.not_eq_true]
      intro hlow
      have hbounds := low_bounds hlow
      rcases hunit with (((h | rfl) | rfl) | rfl) | rfl
      · have h39 : (0x39 : UInt16).toNat = 57 := rfl
        omega
      all_goals exact absurd hlow (by decide)
  · exact wellFormed_quote s

theorem wellFormed_joined {l : List JsString} (h : ∀ s ∈ l, WellFormed s) : WellFormed (joined l) := by
  cases l with
  | nil => exact .nil
  | cons s rest =>
    rw [joined_cons]
    exact (h s List.mem_cons_self).append (.flatMap fun t ht => .unit rfl rfl (h t (List.mem_cons_of_mem _ ht)))

theorem wellFormed_stringify (v : JsValue) : WellFormed (stringify v) := by
  induction v with
  | undefined => exact wellFormed_plain (by decide)
  | scalar value => exact wellFormed_scalarText value
  | array length item ih =>
    refine .unit rfl rfl ((wellFormed_joined fun s hs => ?_).append (.unit rfl rfl .nil))
    obtain ⟨i, -, rfl⟩ := List.mem_map.mp hs
    exact ih i
  | object names distinct member ih =>
    refine .unit rfl rfl ((wellFormed_joined fun s hs => ?_).append (.unit rfl rfl .nil))
    obtain ⟨name, -, rfl⟩ := List.mem_map.mp hs
    exact (wellFormed_quote name).append (.unit rfl rfl (ih name))

/-! ## Requests -/

theorem same_array {length length' : ℕ} {item item' : ℕ → JsValue} :
    Same (.array length item) (.array length' item') ↔ length = length' ∧ ∀ i < length, Same (item i) (item' i) := by
  constructor
  · intro h
    cases h with
    | scalar hv hw => cases hv
    | array h => exact ⟨rfl, h⟩
  · rintro ⟨rfl, h⟩
    exact .array h

theorem same_ofList {l l' : List JsValue} : Same (.ofList l) (.ofList l') ↔ List.Forall₂ Same l l' := by
  rw [List.forall₂_iff_get, JsValue.ofList, JsValue.ofList, same_array]
  refine and_congr_right fun hlength => ?_
  constructor
  · intro h i hi hi'
    have hitem := h i hi
    rwa [List.getD_eq_getElem _ _ hi, List.getD_eq_getElem _ _ hi'] at hitem
  · intro h i hi
    rw [List.getD_eq_getElem _ _ hi, List.getD_eq_getElem _ _ (hlength ▸ hi)]
    exact h i hi (hlength ▸ hi)

theorem same_scalar {a b : Scalar} : Same (.scalar a) (.scalar b) ↔ a = b := by
  constructor
  · intro h
    cases h with
    | scalar hv hw => exact Option.some.inj (hv.trans hw.symm)
  · rintro rfl
    exact .scalar rfl rfl

theorem same_workspace {a b : Option JsString} :
    Same ((a.map JsValue.text).getD (.scalar .null)) ((b.map JsValue.text).getD (.scalar .null)) ↔ a = b := by
  cases a <;> cases b <;> simp [JsValue.text, same_scalar]

theorem same_values {a b : Asked} : Same (.ofList a.values) (.ofList b.values) ↔ SameAsked a b := by
  have hupload : List.Forall₂ Same (a.upload.map JsValue.text).toList (b.upload.map JsValue.text).toList ↔ a.upload = b.upload := by
    cases a.upload <;> cases b.upload <;> simp [JsValue.text, same_scalar]
  rw [same_ofList]
  simp only [Asked.values, List.cons_append, List.nil_append, List.forall₂_cons, same_workspace, same_scalar, JsValue.text,
    Scalar.text.injEq]
  constructor
  · rintro ⟨hoperation, hworkspace, hparams, hquery, hbody, h⟩
    exact ⟨hoperation, hworkspace, hparams, hquery, hbody, hupload.mp h⟩
  · intro h
    exact ⟨h.operationId, h.workspaceId, h.params, h.query, h.body, hupload.mpr h.upload⟩

/-! ## Uploads -/

theorem hex_injective {a b : List UInt8} (h : hex a = hex b) : a = b := by
  have hcode : PrefixFree (fun _ => True) fun b : UInt8 => [lowerHex (b.toNat / 16), lowerHex (b.toNat % 16)] := by
    refine prefixFree_of_length 2 (fun _ => rfl) fun x y _ _ heq => ?_
    have hx := x.toNat_lt
    have hy := y.toNat_lt
    simp only [List.cons.injEq, and_true] at heq
    have hhigh := congrArg lowerHexValue heq.1
    have hlow := congrArg lowerHexValue heq.2
    rw [lowerHexValue_lowerHex (by omega), lowerHexValue_lowerHex (by omega)] at hhigh hlow
    exact UInt8.toNat_inj.mp (by omega)
  exact hcode.flatMap_injective (fun _ _ => List.cons_ne_nil _ _) (fun _ _ => trivial) (fun _ _ => trivial) h

theorem digested_append {a b : Part} {r r' : List UInt8} (h : a.digested ++ r = b.digested ++ r') : SamePart a b ∧ r = r' := by
  simp only [Part.digested, List.append_assoc, List.cons_append] at h
  have hprefix : PrefixFree (fun _ => True) lengthPrefixed := prefixFree_lengthPrefixed
  obtain ⟨hname, hcontent⟩ := hprefix _ _ trivial trivial _ _ h
  obtain ⟨hbytes, hrest⟩ := hprefix _ _ trivial trivial _ _ (List.cons.inj hcontent).2
  exact ⟨⟨UsvString.eq_of_utf8 hname, Prod.ext (List.cons.inj hcontent).1 hbytes⟩, hrest⟩

theorem digested_ne_nil (part : Part) : part.digested ≠ [] := by
  simp [Part.digested]

/-- Parts in a row are digested alike when they are the same part by part. -/
theorem flatMap_digested_iff {l l' : List Part} :
    l.flatMap Part.digested = l'.flatMap Part.digested ↔ List.Forall₂ SamePart l l' := by
  constructor
  · intro h
    induction l generalizing l' with
    | nil =>
      cases l' with
      | nil => exact .nil
      | cons b rest => exact absurd (List.append_eq_nil_iff.mp h.symm).1 (digested_ne_nil b)
    | cons a rest ih =>
      cases l' with
      | nil => exact absurd (List.append_eq_nil_iff.mp h).1 (digested_ne_nil a)
      | cons b rest' =>
        obtain ⟨hsame, hrest⟩ := digested_append h
        exact .cons hsame (ih hrest)
  · intro h
    induction h with
    | nil => rfl
    | cons hab _ ih => rw [List.flatMap_cons, List.flatMap_cons, ih, Part.digested, Part.digested, hab.1, hab.2]

/-- **Requests share a hash exactly when they ask for the same, and uploads share a digest exactly when they have the same parts.** -/
theorem requestHash_uploadDigest (hcollisionFree : ∀ x y, sha256 x = sha256 y → x = y) :
    (∀ a b, requestHash sha256 a = requestHash sha256 b ↔ SameAsked a b) ∧
      ∀ u u', uploadDigest sha256 u = uploadDigest sha256 u' ↔ SameUpload u u' := by
  constructor
  · intro a b
    rw [← same_values, ← stringify_canonical_iff]
    constructor
    · intro h
      exact utf8_injective (wellFormed_stringify _) (wellFormed_stringify _) (hcollisionFree _ _ h)
    · intro h
      rw [requestHash, requestHash, h]
  · intro u u'
    cases u with
    | parts parts =>
      cases u' with
      | parts parts' =>
        constructor
        · intro h
          exact .parts (flatMap_digested_iff.mp (hcollisionFree _ _ (hex_injective (List.append_cancel_left h))))
        · intro h
          cases h with
          | parts h => rw [uploadDigest, uploadDigest, flatMap_digested_iff.mpr h]
      | bytes bytes =>
        refine ⟨fun h => absurd (List.cons.inj h).1 (by decide), fun h => ?_⟩
        cases h
    | bytes bytes =>
      cases u' with
      | parts parts =>
        refine ⟨fun h => absurd (List.cons.inj h).1 (by decide), fun h => ?_⟩
        cases h
      | bytes bytes' =>
        constructor
        · intro h
          obtain rfl := hcollisionFree _ _ (hex_injective (List.append_cancel_left h))
          exact .bytes
        · intro h
          cases h
          rfl

/-- A request for a bookmark, with the members of its body in an order. -/
def createAsked (names : List JsString) (distinct : names.Nodup) : Asked where
  operationId := js "createBookmark"
  workspaceId := some (js "w")
  params := .undefined
  query := .undefined
  body := .object names distinct fun name => if name = js "url" then .text (js "https://example.org/") else .text (js "Example")
  upload := none

theorem requestHash_uploadDigest_orders :
    requestHash id (createAsked [js "url", js "title"] (by decide)) = requestHash id (createAsked [js "title", js "url"] (by decide)) :=
  ((requestHash_uploadDigest id fun _ _ h => h).1 _ _).mpr
    ⟨rfl, rfl, .scalar rfl rfl, .scalar rfl rfl, .object (fun name => by simp [or_comm]) (fun name _ => by
      by_cases h : name = js "url"
      · simp only [if_pos h]
        exact .scalar rfl rfl
      · simp only [if_neg h]
        exact .scalar rfl rfl), rfl⟩

/-- A file of an import. -/
def fileUpload (fileName : JsString) : List Part :=
  [{ name := ⟨js "file", wellFormed_plain (by decide)⟩, value := .file [0x61] fileName (js "text/html") }]

theorem uploadDigest_fileNames :
    ¬ ∀ sha256 : List UInt8 → List UInt8, (∀ x y, sha256 x = sha256 y → x = y) → ∀ parts parts' : List Part,
      uploadDigest sha256 (.parts parts) = uploadDigest sha256 (.parts parts') ↔ parts = parts' := by
  intro h
  have hparts := (h id (fun _ _ h => h) (fileUpload (js "a.html")) (fileUpload (js "b.html"))).mp rfl
  simp only [fileUpload, List.cons.injEq, Part.mk.injEq, PartValue.file.injEq] at hparts
  exact absurd hparts.1.2.2.1 (by decide)

end SlugBase.Http
