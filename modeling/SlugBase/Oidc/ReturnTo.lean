import SlugBase.Lib.UrlPath

/-!
# The return path of a sign-in

Where the browser goes after a sign-in: a path of the application, however the request spelled it.

* `safeReturnTo`, `acceptsReturnTo`: the path that is stored, and what the database takes;
* `Safe`: what a return path has to be;
* **`safeReturnTo_path`**: everything but the length holds of every text, since what is measured is the text
  before it is encoded;
* **`safeReturnTo_safe_iff`**: which texts give a return path.
-/

namespace SlugBase.Oidc

open JavaScript UrlStandard

/-! ## The return path -/

section

variable (elsewhere : JsString → JsString → Option ResolvedUrl)

def RETURN_TO_MAX_LENGTH : ℕ := 2048

/-- A backslash or a control character. -/
def isForbidden (u : UInt16) : Bool := u == 0x5C || u ≤ 0x1F || u == 0x7F

/-- A slash or a backslash in hexadecimal. -/
def isSlashCode : JsString → Bool
  | u :: v :: _ => (u == 0x32 && lowerAscii v == 0x66) || (u == 0x35 && lowerAscii v == 0x63)
  | _ => false

/-- `/%(?:2f|5c)/i`. -/
def hasEncodedSlash : JsString → Bool
  | [] => false
  | u :: rest => (u == 0x25 && isSlashCode rest) || hasEncodedSlash rest

/-- `startsWith("//")`. -/
def startsWithSlashes : JsString → Bool
  | u :: v :: _ => u == 0x2F && v == 0x2F
  | _ => false

/-- The checks of `safeReturnTo` on the text as it is given. -/
def isGiven (value : JsString) : Bool :=
  !(value == [] || decide (RETURN_TO_MAX_LENGTH < value.length) || value.head? != some 0x2F ||
      startsWithSlashes value) &&
    !(value.any isForbidden || hasEncodedSlash value)

/-- The origin that a return path is resolved against. -/
def returnToBase : JsString := js "https://origin.invalid"

/-- `safeReturnTo`. -/
def safeReturnTo (value : Option JsString) : JsString :=
  match value with
  | none => js "/"
  | some text =>
    if !isGiven text then js "/"
    else
      match resolve elsewhere returnToBase text with
      | none => js "/"
      | some resolved =>
        if resolved.origin ≠ returnToBase ∨ resolved.username ≠ [] ∨ resolved.password ≠ [] then js "/"
        else if startsWithSlashes resolved.path then js "/"
        else resolved.path

/-- What `sys_oidc_state_create` asks of the return path: `LIKE '/%'` and at most 2048 characters. -/
def acceptsReturnTo (returnTo : JsString) : Bool :=
  returnTo.head? == some 0x2F && decide ((codePoints returnTo).length ≤ 2048)

/-! ## What a return path has to be -/

/-- A path of one leading slash, of visible ASCII without a backslash or an encoded slash. -/
structure IsPath (path : JsString) : Prop where
  slash : path.head? = some 0x2F
  single : startsWithSlashes path = false
  visible : ∀ u ∈ path, 0x20 < u ∧ u < 0x7F ∧ u ≠ 0x5C
  noEncodedSlash : hasEncodedSlash path = false
  sameOrigin : ∀ base, ∃ url, resolve elsewhere base path = some url ∧
    url.origin = base ∧ url.username = [] ∧ url.password = []

/-- **A return path**: one that is also left as it is and that the database takes. -/
structure Safe (path : JsString) : Prop extends IsPath elsewhere path where
  unchanged : safeReturnTo elsewhere (some path) = path
  accepted : acceptsReturnTo path = true

/-- Without its dot segments the path begins with an empty segment before another. -/
def isDoubled (s : JsString) : Bool :=
  match keptSegments s with
  | [] :: _ :: _ => true
  | _ => false

/-- **The texts that give a return path**: those that are refused and those that take 2048 units when written. -/
def Fits (value : Option JsString) : Prop :=
  ∀ text, value = some text → isGiven text = true → isDoubled (cleaned text) = true ∨
    writtenSize (cleaned text) ≤ RETURN_TO_MAX_LENGTH

end

/-! ## Encoded slashes -/

section

variable {base s part segment : JsString} {inSet : UInt16 → Bool} {mark u : UInt16}

theorem isSlashCode_code {n : ℕ} (h : n < 256)
    (hcode : isSlashCode [upperHex (n / 16), upperHex (n % 16)] = true) : n = 0x2F ∨ n = 0x5C := by
  have hall : ∀ n < 256,
      decide (isSlashCode [upperHex (n / 16), upperHex (n % 16)] = true → n = 0x2F ∨ n = 0x5C) = true := by
    decide +kernel
  exact of_decide_eq_true (hall n h) hcode

theorem hasEncodedSlash_cons (u : UInt16) (s : JsString) :
    hasEncodedSlash (u :: s) = ((u == 0x25 && isSlashCode s) || hasEncodedSlash s) := rfl

theorem hasEncodedSlash_append_right (a : JsString) {b : JsString} (h : hasEncodedSlash b = true) :
    hasEncodedSlash (a ++ b) = true := by
  induction a with
  | nil => exact h
  | cons u rest ih => rw [List.cons_append, hasEncodedSlash_cons, ih, Bool.or_true]

theorem isSlashCode_append (a b : JsString) (h : isSlashCode a = true) : isSlashCode (a ++ b) = true := by
  match a, h with
  | _ :: _ :: _, h => exact h

theorem hasEncodedSlash_append_left {a : JsString} (b : JsString) (h : hasEncodedSlash a = true) :
    hasEncodedSlash (a ++ b) = true := by
  induction a with
  | nil => cases h
  | cons u rest ih =>
    rw [hasEncodedSlash_cons, Bool.or_eq_true, Bool.and_eq_true] at h
    rw [List.cons_append, hasEncodedSlash_cons, Bool.or_eq_true, Bool.and_eq_true]
    rcases h with ⟨hpercent, hcode⟩ | hrest
    · exact .inl ⟨hpercent, isSlashCode_append rest b hcode⟩
    · exact .inr (ih hrest)

theorem hasEncodedSlash_of_within (h : part <:+: s) (hs : hasEncodedSlash s = false) :
    hasEncodedSlash part = false := by
  obtain ⟨before, after, rfl⟩ := h
  rw [← Bool.not_eq_true] at hs ⊢
  intro hpart
  exact hs (hasEncodedSlash_append_left after (hasEncodedSlash_append_right before hpart))

/-- A text begins with no unit of a slash's code. -/
def Opens (s : JsString) : Prop := ∀ u, s.head? = some u → u = 0x2F ∨ u = 0x3F ∨ u = 0x23

/-- Texts without encoded slashes have none between them, when the second begins with a mark. -/
theorem hasEncodedSlash_append {a b : JsString} (ha : hasEncodedSlash a = false)
    (hb : hasEncodedSlash b = false) (hopens : Opens b) : hasEncodedSlash (a ++ b) = false := by
  have hcode : ∀ a : JsString, isSlashCode (a ++ b) = true → isSlashCode a = true := by
    intro a h
    match a, h with
    | _ :: _ :: _, h => exact h
    | [v], h =>
      cases b with
      | nil => cases h
      | cons w rest =>
        rcases hopens w rfl with rfl | rfl | rfl <;>
          simp [isSlashCode, show lowerAscii 0x2F = 0x2F by decide, show lowerAscii 0x3F = 0x3F by decide,
            show lowerAscii 0x23 = 0x23 by decide] at h
    | [], h =>
      cases b with
      | nil => cases h
      | cons w rest =>
        cases rest with
        | nil => cases h
        | cons x rest => rcases hopens w rfl with rfl | rfl | rfl <;> simp [isSlashCode] at h
  induction a with
  | nil => exact hb
  | cons u rest ih =>
    rw [hasEncodedSlash_cons, Bool.or_eq_false_iff] at ha
    rw [List.cons_append, hasEncodedSlash_cons, Bool.or_eq_false_iff]
    refine ⟨?_, ih ha.2⟩
    rw [← Bool.not_eq_true, Bool.and_eq_true]
    rintro ⟨hpercent, hslash⟩
    rw [hpercent, hcode rest hslash] at ha
    exact absurd ha.1 (by decide)

/-- Codes of bytes that are no slash and no backslash hold no encoded slash. -/
theorem hasEncodedSlash_percentEncoded {bytes : List UInt8}
    (h : ∀ b ∈ bytes, b.toNat ≠ 0x2F ∧ b.toNat ≠ 0x5C) (s : JsString) :
    hasEncodedSlash (bytes.flatMap percentEncoded ++ s) = hasEncodedSlash s := by
  induction bytes with
  | nil => rfl
  | cons b rest ih =>
    obtain ⟨hfirst, hsecond, -⟩ := code_facts b.toNat_lt
    have hno := h b List.mem_cons_self
    have hcode : ∀ t, isSlashCode (upperHex (b.toNat / 16) :: upperHex (b.toNat % 16) :: t) = false := by
      intro t
      rw [← Bool.not_eq_true]
      intro hcode
      rcases isSlashCode_code b.toNat_lt hcode with heq | heq
      · exact hno.1 heq
      · exact hno.2 heq
    rw [List.flatMap_cons, List.append_assoc]
    show hasEncodedSlash
      (0x25 :: upperHex (b.toNat / 16) :: upperHex (b.toNat % 16) :: (rest.flatMap percentEncoded ++ s)) = _
    rw [hasEncodedSlash_cons, hcode, hasEncodedSlash_cons, hasEncodedSlash_cons, beq_false_of_ne hfirst,
      beq_false_of_ne hsecond]
    simpa using ih fun c hc => h c (List.mem_cons_of_mem _ hc)

/-- A slash's code is written with units that stand as they are. -/
theorem isSlashCode_encoded {ps : List JsString} (h : isSlashCode (ps.flatMap (encodePiece inSet)) = true) :
    isSlashCode ps.flatten = true := by
  have hbad : ∀ t : JsString, isSlashCode (0x25 :: t) = false := by
    intro t
    cases t <;> rfl
  have hbad' : ∀ (u : UInt16) (t : JsString), isSlashCode (u :: 0x25 :: t) = false := by
    intro u t
    show ((u == 0x32 && lowerAscii 0x25 == 0x66) || (u == 0x35 && lowerAscii 0x25 == 0x63)) = false
    rw [show lowerAscii 0x25 = 0x25 by decide]
    simp
  cases ps with
  | nil => cases h
  | cons p rest =>
    rw [List.flatMap_cons] at h
    cases hp : isPlainPiece inSet p with
    | false =>
      obtain ⟨t, ht⟩ := encodePiece_head hp
      rw [ht, List.cons_append, hbad] at h
      cases h
    | true =>
      obtain ⟨u, rfl⟩ := plain_piece hp
      rw [encodePiece, if_pos hp] at h
      cases rest with
      | nil => cases h
      | cons q rest =>
        rw [List.flatMap_cons] at h
        cases hq : isPlainPiece inSet q with
        | false =>
          obtain ⟨t, ht⟩ := encodePiece_head hq
          rw [ht] at h
          simp only [List.cons_append, List.nil_append] at h
          rw [hbad'] at h
          cases h
        | true =>
          obtain ⟨v, rfl⟩ := plain_piece hq
          rw [encodePiece, if_pos hq] at h
          exact h

/-- **Encoding makes no encoded slash.** -/
theorem hasEncodedSlash_percentEncode (hset : Leaves inSet)
    (h : hasEncodedSlash (percentEncode inSet s) = true) : hasEncodedSlash s = true := by
  have hpieces : ∀ ps : List JsString, (∀ p ∈ ps, IsPiece p) →
      hasEncodedSlash (ps.flatMap (encodePiece inSet)) = true → hasEncodedSlash ps.flatten = true := by
    intro ps
    induction ps with
    | nil => exact fun _ h => h
    | cons p rest ih =>
      intro hps h
      have hrest := ih fun q hq => hps q (List.mem_cons_of_mem _ hq)
      rw [List.flatMap_cons] at h
      rw [List.flatten_cons]
      cases hp : isPlainPiece inSet p with
      | false =>
        rw [encodePiece, if_neg (by rw [hp]; decide), hasEncodedSlash_percentEncoded] at h
        · exact hasEncodedSlash_append_right p (hrest h)
        · intro b hb
          have hslash : isPlain inSet 0x2F = true := hset.plain (by decide)
          have hback : isPlain inSet 0x5C = true := hset.plain (by decide)
          exact ⟨byte_of_encoded (hps p List.mem_cons_self) hp hb hslash,
            byte_of_encoded (hps p List.mem_cons_self) hp hb hback⟩
      | true =>
        obtain ⟨u, rfl⟩ := plain_piece hp
        rw [encodePiece, if_pos hp, List.cons_append, List.nil_append, hasEncodedSlash_cons, Bool.or_eq_true,
          Bool.and_eq_true] at h
        rw [List.cons_append, List.nil_append, hasEncodedSlash_cons, Bool.or_eq_true, Bool.and_eq_true]
        rcases h with ⟨hpercent, hcode⟩ | hrest'
        · exact .inl ⟨hpercent, isSlashCode_encoded hcode⟩
        · exact .inr (hrest hrest')
  have hflat := hpieces (codePoints s) (fun p hp => isPiece_of_mem hp) h
  rwa [codePoints_flatten] at hflat

/-! ## What is written -/

/-- What is written is visible ASCII without a backslash. -/
theorem visible_path (hback : ∀ u ∈ s, u ≠ 0x5C) (hu : u ∈ (atOrigin base s).path) :
    0x20 < u ∧ u < 0x7F ∧ u ≠ 0x5C := by
  have hplain : ∀ {inSet : UInt16 → Bool}, isPlain inSet u = true → inSet 0x20 = true →
      0x20 < u ∧ u < 0x7F := by
    intro inSet hplain hspace
    have hbounds := isPlain_bounds hplain
    have hne : u.toNat ≠ 0x20 := by
      intro heq
      obtain rfl : u = 0x20 := UInt16.toNat_inj.mp heq
      rw [hspace] at hbounds
      cases hbounds.2.2
    rw [UInt16.lt_iff_toNat_lt, UInt16.lt_iff_toNat_lt]
    have h20 : (0x20 : UInt16).toNat = 0x20 := rfl
    have h7f : (0x7F : UInt16).toNat = 0x7F := rfl
    omega
  have hcodes : ∀ {inSet : UInt16 → Bool} {part : JsString}, part <:+: s → u ∈ percentEncode inSet part →
      u ≠ 0x5C := by
    intro inSet part hpart hmem
    rcases mem_percentEncode hmem with hcode | ⟨hmem, -⟩
    · have hall : codeUnits.all (fun u => u != 0x5C) = true := by decide +kernel
      exact bne_iff_ne.mp (List.all_eq_true.mp hall u hcode)
    · exact hback u (hpart.subset hmem)
  rcases List.mem_append.mp hu with hu | hhash
  · rcases List.mem_append.mp hu with hpath | hsearch
    · rcases mem_pathname hpath with rfl | ⟨hslash, hmem⟩
      · decide
      · have hbounds := hplain hmem (by decide)
        refine ⟨hbounds.1, hbounds.2, ?_⟩
        rintro rfl
        exact absurd hslash (by decide)
    · rcases mem_marked hsearch with rfl | hmem
      · decide
      · have hbounds := hplain (plain_of_mem_percentEncode leaves_query hmem) (by decide)
        exact ⟨hbounds.1, hbounds.2, hcodes (queryPart_within s) hmem⟩
  · rcases mem_marked hhash with rfl | hmem
    · decide
    · have hbounds := hplain (plain_of_mem_percentEncode leaves_fragment hmem) (by decide)
      exact ⟨hbounds.1, hbounds.2, hcodes (fragmentPart_within s) hmem⟩

theorem keptSegments_noEncodedSlash (hs : hasEncodedSlash s = false) (h : segment ∈ keptSegments s) :
    hasEncodedSlash segment = false := by
  rcases mem_keptSegments h with rfl | ⟨hmem, -⟩
  · rfl
  · exact hasEncodedSlash_of_within (((splitSlash_within _).2 segment hmem).trans (pathPart_within s)) hs

theorem marked_noEncodedSlash (hset : Leaves inSet) (hmark : mark ≠ 0x25) (h : hasEncodedSlash part = false) :
    hasEncodedSlash (marked mark inSet part) = false := by
  unfold marked
  by_cases hpart : part = []
  · rw [if_pos hpart]
    rfl
  · rw [if_neg hpart, hasEncodedSlash_cons, beq_false_of_ne hmark, Bool.false_and, Bool.false_or,
    ← Bool.not_eq_true]
    intro hencoded
    rw [hasEncodedSlash_percentEncode hset hencoded] at h
    cases h

/-- What is written holds an encoded slash only when the text does. -/
theorem path_noEncodedSlash (base : JsString) (hs : hasEncodedSlash s = false) :
    hasEncodedSlash (atOrigin base s).path = false := by
  have hsegments : ∀ segments : List JsString, (∀ segment ∈ segments, hasEncodedSlash segment = false) →
      hasEncodedSlash (segments.flatMap fun segment => 0x2F :: percentEncode inPathSet segment) = false := by
    intro segments
    induction segments with
    | nil => exact fun _ => rfl
    | cons segment rest ih =>
      intro h
      have hrest := ih fun other hother => h other (List.mem_cons_of_mem _ hother)
      rw [List.flatMap_cons]
      refine hasEncodedSlash_append ?_ hrest ?_
      · rw [hasEncodedSlash_cons, show ((0x2F : UInt16) == 0x25) = false by decide, Bool.false_and,
        Bool.false_or, ← Bool.not_eq_true]
        intro hencoded
        have hraw := hasEncodedSlash_percentEncode leaves_path hencoded
        rw [h segment List.mem_cons_self] at hraw
        cases hraw
      · intro u hu
        cases rest with
        | nil => cases hu
        | cons next rest => exact .inl (Option.some.inj hu).symm
  have hpathname : hasEncodedSlash (atOrigin base s).pathname = false :=
    hsegments (keptSegments s) fun segment hsegment => keptSegments_noEncodedSlash hs hsegment
  have hsearch : hasEncodedSlash (atOrigin base s).search = false :=
    marked_noEncodedSlash leaves_query (by decide) (hasEncodedSlash_of_within (queryPart_within s) hs)
  have hhash : hasEncodedSlash (atOrigin base s).hash = false :=
    marked_noEncodedSlash leaves_fragment (by decide) (hasEncodedSlash_of_within (fragmentPart_within s) hs)
  refine hasEncodedSlash_append (hasEncodedSlash_append hpathname hsearch ?_) hhash ?_
  · exact fun u hu => .inr (.inl (marked_head hu))
  · exact fun u hu => .inr (.inr (marked_head hu))

/-- What is written begins with two slashes exactly when an empty segment stands before another. -/
theorem startsWithSlashes_path (base s : JsString) :
    startsWithSlashes (atOrigin base s).path = isDoubled s := by
  have hslashes : ∀ t : JsString, startsWithSlashes (0x2F :: t) = (t.head? == some 0x2F) := by
    intro t
    cases t <;> rfl
  have hmarks : ((atOrigin base s).search ++ (atOrigin base s).hash).head? ≠ some 0x2F := by
    intro hhead
    rw [List.head?_append] at hhead
    rcases Option.or_eq_some_iff.mp hhead with hsearch | ⟨-, hhash⟩
    · exact absurd (marked_head hsearch) (by decide)
    · exact absurd (marked_head hhash) (by decide)
  rw [ResolvedUrl.path, List.append_assoc, isDoubled]
  show startsWithSlashes
    ((keptSegments s).flatMap (fun segment => 0x2F :: percentEncode inPathSet segment) ++ _) = _
  cases hkept : keptSegments s with
  | nil => exact absurd hkept (keptSegments_ne_nil s)
  | cons segment rest =>
    rw [List.flatMap_cons, List.cons_append, List.cons_append, hslashes]
    cases segment with
    | nil =>
      rw [percentEncode_nil, List.nil_append]
      cases rest with
      | nil =>
        rw [List.flatMap_nil, List.nil_append]
        exact beq_false_of_ne hmarks
      | cons next rest => rfl
    | cons u segment =>
      have hslash : ∀ v ∈ percentEncode inPathSet (u :: segment), isSlash v = false :=
        percentEncode_noSlash fun v hv => keptSegments_noSlash (hkept ▸ List.mem_cons_self) hv
      cases hencoded : percentEncode inPathSet (u :: segment) with
      | nil => cases percentEncode_eq_nil.mp hencoded
      | cons v encoded =>
        have hv := hslash v (hencoded ▸ List.mem_cons_self)
        refine beq_false_of_ne fun hhead => ?_
        obtain rfl : v = 0x2F := Option.some.inj hhead
        cases hv

end

section

variable (elsewhere : JsString → JsString → Option ResolvedUrl) {base s text : JsString} {u : UInt16}

/-! ## The texts that are accepted -/

theorem isGiven_iff : isGiven text = true ↔ text.length ≤ RETURN_TO_MAX_LENGTH ∧ text.head? = some 0x2F ∧
    startsWithSlashes text = false ∧ (∀ u ∈ text, isForbidden u = false) ∧ hasEncodedSlash text = false := by
  simp only [isGiven, Bool.and_eq_true, Bool.not_eq_true', Bool.or_eq_false_iff, decide_eq_false_iff_not,
    Nat.not_lt, bne_eq_false_iff_eq, List.any_eq_false, Bool.not_eq_true]
  constructor
  · rintro ⟨⟨⟨⟨-, hlength⟩, hhead⟩, hsingle⟩, hforbidden, hencoded⟩
    exact ⟨hlength, hhead, hsingle, hforbidden, hencoded⟩
  · rintro ⟨hlength, hhead, hsingle, hforbidden, hencoded⟩
    refine ⟨⟨⟨⟨beq_false_of_ne ?_, hlength⟩, hhead⟩, hsingle⟩, hforbidden, hencoded⟩
    rintro rfl
    cases hhead

theorem isForbidden_eq_false : isForbidden u = false ↔ u ≠ 0x5C ∧ 0x1F < u ∧ u ≠ 0x7F := by
  simp only [isForbidden, Bool.or_eq_false_iff, beq_eq_false_iff_ne, decide_eq_false_iff_not, UInt16.not_le,
    and_assoc]

theorem second_noSlash (hsingle : startsWithSlashes (0x2F :: s) = false) (hback : ∀ u ∈ s, u ≠ 0x5C) :
    ∀ v, s.head? = some v → isSlash v = false := by
  intro v hv
  cases s with
  | nil => cases hv
  | cons w rest =>
    obtain rfl := Option.some.inj hv
    have hne : (w == 0x2F) = false := hsingle
    rw [isSlash, hne, beq_false_of_ne (hback w List.mem_cons_self)]
    rfl

theorem cleaned_given (h : ∀ u ∈ text, isForbidden u = false) :
    cleaned text = text.rdropWhile fun u => u ≤ 0x20 := by
  refine List.filter_eq_self.mpr fun u hu => ?_
  have hstart : text.rdropWhile (fun u => u ≤ 0x20) <+: text := List.rdropWhile_prefix _ _
  have hlow := (isForbidden_eq_false.mp (h u (hstart.subset hu))).2.1
  rw [Bool.not_eq_true', Bool.or_eq_false_iff, Bool.or_eq_false_iff]
  refine ⟨⟨beq_false_of_ne ?_, beq_false_of_ne ?_⟩, beq_false_of_ne ?_⟩
  · rintro rfl
    exact absurd hlow (by decide)
  · rintro rfl
    exact absurd hlow (by decide)
  · rintro rfl
    exact absurd hlow (by decide)

theorem cleaned_within (h : ∀ u ∈ text, isForbidden u = false) : cleaned text <:+: text := by
  rw [cleaned_given h]
  have hstart : text.rdropWhile (fun u => u ≤ 0x20) <+: text := List.rdropWhile_prefix _ _
  exact hstart.isInfix

theorem cleaned_visible (h : ∀ u ∈ s, 0x20 < u ∧ u < 0x7F ∧ u ≠ 0x5C) : cleaned s = s := by
  have hgiven : ∀ u ∈ s, isForbidden u = false := by
    intro u hu
    obtain ⟨hlow, hhigh, hback⟩ := h u hu
    have h1f : (0x1F : UInt16) < 0x20 := by decide
    exact isForbidden_eq_false.mpr ⟨hback, UInt16.lt_trans h1f hlow, UInt16.ne_of_lt hhigh⟩
  rw [cleaned_given hgiven, List.rdropWhile_eq_self_iff]
  intro hne hlast
  exact UInt16.not_le.mpr (h _ (List.getLast_mem hne)).1 (of_decide_eq_true hlast)

/-- The parser takes a given text for a path. -/
theorem resolve_given (base : JsString) (h : isGiven text = true) :
    resolve elsewhere base text = some (atOrigin base (cleaned text)) := by
  obtain ⟨-, hhead, hsingle, hforbidden, -⟩ := isGiven_iff.mp h
  refine if_pos ?_
  cases text with
  | nil => cases hhead
  | cons first rest =>
    obtain rfl := Option.some.inj hhead
    have hclean := cleaned_given hforbidden
    have hstart := List.rdropWhile_prefix (fun u : UInt16 => decide (u ≤ 0x20)) (0x2F :: rest)
    rw [← hclean] at hstart
    cases hcase : cleaned (0x2F :: rest) with
    | nil =>
      have hall := List.rdropWhile_eq_nil_iff.mp (hclean ▸ hcase) 0x2F List.mem_cons_self
      exact absurd hall (by decide)
    | cons w t =>
      rw [hcase] at hstart
      obtain ⟨rfl, ht⟩ := List.cons_prefix_cons.mp hstart
      have hback : ∀ u ∈ rest, u ≠ 0x5C := fun u hu =>
        (isForbidden_eq_false.mp (hforbidden u (List.mem_cons_of_mem _ hu))).1
      refine isPathAbsolute_cons fun v hv => second_noSlash hsingle hback v ?_
      obtain ⟨more, rfl⟩ := ht
      rw [List.head?_append, hv]
      rfl

theorem safeReturnTo_given (h : isGiven text = true) :
    safeReturnTo elsewhere (some text) =
      if isDoubled (cleaned text) then js "/" else (atOrigin returnToBase (cleaned text)).path := by
  have hnot : ¬ (!isGiven text) = true := by
    rw [h]
    decide
  have horigin : ¬ ((atOrigin returnToBase (cleaned text)).origin ≠ returnToBase ∨
      (atOrigin returnToBase (cleaned text)).username ≠ [] ∨
        (atOrigin returnToBase (cleaned text)).password ≠ []) := by
    rintro (hne | hne | hne) <;> exact hne rfl
  simp only [safeReturnTo, if_neg hnot, resolve_given elsewhere returnToBase h, if_neg horigin,
    startsWithSlashes_path]

theorem safeReturnTo_refused (h : isGiven text = false) : safeReturnTo elsewhere (some text) = js "/" := by
  simp only [safeReturnTo, h, Bool.not_false, if_true]

/-- A text that the parser may write: without backslashes, encoded slashes or two slashes at its start. -/
structure Writable (s : JsString) : Prop where
  noBackslash : ∀ u ∈ s, u ≠ 0x5C
  noEncodedSlash : hasEncodedSlash s = false
  single : isDoubled s = false

theorem Writable.visible (h : Writable s) (base : JsString) :
    ∀ u ∈ (atOrigin base s).path, 0x20 < u ∧ u < 0x7F ∧ u ≠ 0x5C :=
  fun _ hu => visible_path h.noBackslash hu

theorem Writable.startsWithSlashes (h : Writable s) (base : JsString) :
    startsWithSlashes (atOrigin base s).path = false :=
  (startsWithSlashes_path base s).trans h.single

theorem Writable.resolve (h : Writable s) (base other : JsString) :
    resolve elsewhere other (atOrigin base s).path = some (atOrigin other s) := by
  have hvisible := h.visible base
  have hsingle := h.startsWithSlashes base
  rw [UrlStandard.resolve, cleaned_visible hvisible, atOrigin_path]
  refine if_pos ?_
  obtain ⟨rest, hrest⟩ := pathname_cons base s
  rw [ResolvedUrl.path, hrest, List.cons_append, List.cons_append] at hvisible hsingle ⊢
  exact isPathAbsolute_cons (second_noSlash hsingle fun u hu => (hvisible u (List.mem_cons_of_mem _ hu)).2.2)

/-- **What is written is a path**, whatever its length. -/
theorem Writable.isPath (h : Writable s) (base : JsString) : IsPath elsewhere (atOrigin base s).path where
  slash := head_path base s
  single := h.startsWithSlashes base
  visible := h.visible base
  noEncodedSlash := path_noEncodedSlash base h.noEncodedSlash
  sameOrigin := fun other => ⟨atOrigin other s, h.resolve elsewhere base other, rfl, rfl, rfl⟩

theorem Writable.codePoints_length (h : Writable s) (base : JsString) :
    (codePoints (atOrigin base s).path).length = writtenSize s := by
  rw [codePoints_of_units, List.length_map, length_path]
  intro u hu
  have hlt := UInt16.lt_iff_toNat_lt.mp (h.visible base u hu).2.1
  have h7f : (0x7F : UInt16).toNat = 0x7F := rfl
  exact (not_surrogate_of_lt (by omega)).1

/-- A path of at most 2048 units is given again, and left as it is. -/
theorem Writable.safe (h : Writable s) (base : JsString) (hsize : writtenSize s ≤ RETURN_TO_MAX_LENGTH) :
    Safe elsewhere (atOrigin base s).path where
  toIsPath := h.isPath elsewhere base
  unchanged := by
    have hgiven : isGiven (atOrigin base s).path = true := by
      refine isGiven_iff.mpr ⟨?_, head_path base s, h.startsWithSlashes base, fun u hu => ?_,
        path_noEncodedSlash base h.noEncodedSlash⟩
      · rw [length_path]
        exact hsize
      · obtain ⟨hlow, hhigh, hback⟩ := h.visible base u hu
        have h1f : (0x1F : UInt16) < 0x20 := by decide
        exact isForbidden_eq_false.mpr ⟨hback, UInt16.lt_trans h1f hlow, UInt16.ne_of_lt hhigh⟩
    have hdoubled : isDoubled (atOrigin base s).path = false := by
      rw [← startsWithSlashes_path base, atOrigin_path]
      exact h.startsWithSlashes base
    rw [safeReturnTo_given elsewhere hgiven, cleaned_visible (h.visible base), hdoubled, atOrigin_path]
    rfl
  accepted := by
    rw [acceptsReturnTo, head_path, h.codePoints_length]
    exact decide_eq_true hsize

theorem Writable.size_of_safe (h : Writable s) (hsafe : Safe elsewhere (atOrigin base s).path) :
    writtenSize s ≤ RETURN_TO_MAX_LENGTH := by
  have haccepted := hsafe.accepted
  rw [acceptsReturnTo, Bool.and_eq_true, h.codePoints_length] at haccepted
  exact of_decide_eq_true haccepted.2

theorem writable_given (h : isGiven text = true) (hsingle : isDoubled (cleaned text) = false) :
    Writable (cleaned text) := by
  obtain ⟨-, -, -, hforbidden, hencoded⟩ := isGiven_iff.mp h
  have hwithin := cleaned_within hforbidden
  refine ⟨fun u hu => ?_, hasEncodedSlash_of_within hwithin hencoded, hsingle⟩
  exact (isForbidden_eq_false.mp (hforbidden u (hwithin.subset hu))).1

theorem safe_root : Safe elsewhere (js "/") := by
  have hslash : ∀ u ∈ js "/", u ≠ 0x5C := by
    intro u hu
    obtain rfl : u = 0x2F := List.mem_singleton.mp hu
    decide
  have hroot : Writable (js "/") := ⟨hslash, by decide, by decide⟩
  exact hroot.safe elsewhere returnToBase (by decide)

/-! ## The return path of a text -/

/-- **Of every text the answer is a path of the origin.** -/
theorem safeReturnTo_path (value : Option JsString) : IsPath elsewhere (safeReturnTo elsewhere value) := by
  cases value with
  | none => exact (safe_root elsewhere).toIsPath
  | some text =>
    cases hgiven : isGiven text with
    | false =>
      rw [safeReturnTo_refused elsewhere hgiven]
      exact (safe_root elsewhere).toIsPath
    | true =>
      rw [safeReturnTo_given elsewhere hgiven]
      cases hdoubled : isDoubled (cleaned text) with
      | true => exact (safe_root elsewhere).toIsPath
      | false => exact (writable_given hgiven hdoubled).isPath elsewhere returnToBase

/-- **The answer is a return path exactly for the texts that fit.** -/
theorem safeReturnTo_safe_iff (value : Option JsString) :
    Safe elsewhere (safeReturnTo elsewhere value) ↔ Fits value := by
  cases value with
  | none =>
    refine ⟨fun _ text htext => ?_, fun _ => safe_root elsewhere⟩
    cases htext
  | some text =>
    cases hgiven : isGiven text with
    | false =>
      rw [safeReturnTo_refused elsewhere hgiven]
      refine ⟨fun _ other heq hother => ?_, fun _ => safe_root elsewhere⟩
      obtain rfl := Option.some.inj heq
      rw [hgiven] at hother
      cases hother
    | true =>
      rw [safeReturnTo_given elsewhere hgiven]
      cases hdoubled : isDoubled (cleaned text) with
      | true =>
        refine ⟨fun _ other heq _ => .inl ?_, fun _ => safe_root elsewhere⟩
        obtain rfl := Option.some.inj heq
        exact hdoubled
      | false =>
        have hwritable := writable_given hgiven hdoubled
        constructor
        · intro hsafe other heq _
          obtain rfl := Option.some.inj heq
          exact .inr (hwritable.size_of_safe elsewhere hsafe)
        · intro hfits
          rcases hfits text rfl hgiven with hother | hsize
          · rw [hdoubled] at hother
            cases hother
          · exact hwritable.safe elsewhere returnToBase hsize

theorem safeReturnTo_tooLong :
    ¬ ∀ (elsewhere : JsString → JsString → Option ResolvedUrl) (value : Option JsString),
      Safe elsewhere (safeReturnTo elsewhere value) := by
  intro h
  have hgiven : isGiven (0x2F :: List.replicate 1000 0xE9) = true := by decide +kernel
  have hsingle : isDoubled (cleaned (0x2F :: List.replicate 1000 0xE9)) = false := by decide +kernel
  have hsafe := h (fun _ _ => none) (some (0x2F :: List.replicate 1000 0xE9))
  rw [safeReturnTo_given _ hgiven, hsingle] at hsafe
  have hsize := (writable_given hgiven hsingle).size_of_safe _ hsafe
  exact absurd hsize (by decide +kernel)

end

end SlugBase.Oidc
