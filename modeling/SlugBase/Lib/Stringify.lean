import SlugBase.Lib.JsString
import SlugBase.Lib.PrefixCode

/-!
# JSON texts

The values that JSON can say, as objects with names in an order, and the text `JSON.stringify` writes for them.

* `JsNumber`, `Scalar`, `JsValue`: the values;
* `quote`, `scalarText`, `stringify`: their texts;
* **`quote_append`**, **`scalarText_append`**: a text shows its value and where it ends.

A number is its text, which the language writes for no other number.
-/

namespace JavaScript

open PrefixCode

/-- The units a number is written with. -/
def isNumberUnit (u : UInt16) : Bool := (0x30 ≤ u && u ≤ 0x39) || u == 0x2B || u == 0x2D || u == 0x2E || u == 0x65

/-- A finite number, as `Number::toString` writes it. -/
structure JsNumber where
  text : JsString
  ne_nil : text ≠ []
  units : ∀ u ∈ text, isNumberUnit u = true
deriving DecidableEq

/-- A value that is no object and no array. -/
inductive Scalar
  | null
  | bool (value : Bool)
  | number (value : JsNumber)
  | text (value : JsString)
deriving DecidableEq

/-- A value: the items of an array under their indices, the members of an object under its own names. -/
inductive JsValue
  | undefined
  | scalar (value : Scalar)
  | array (length : ℕ) (item : ℕ → JsValue)
  | object (names : List JsString) (distinct : names.Nodup) (member : JsString → JsValue)

namespace JsValue

/-- A text as a value. -/
abbrev text (value : JsString) : JsValue := .scalar (.text value)

/-- An array of values. -/
def ofList (items : List JsValue) : JsValue := .array items.length fun i => items.getD i .undefined

/-- `value === undefined`. -/
def isUndefined : JsValue → Bool
  | .undefined => true
  | _ => false

end JsValue

/-! ## Texts -/

/-- A digit of a lower-case hexadecimal number. -/
def lowerHex (n : ℕ) : UInt16 := if n < 10 then UInt16.ofNat (0x30 + n) else UInt16.ofNat (0x57 + n)

/-- The number of a digit. -/
def lowerHexValue (u : UInt16) : ℕ := if u < 0x40 then u.toNat - 0x30 else u.toNat - 0x57

/-- A unit in four digits. -/
def hex4 (u : UInt16) : JsString :=
  [lowerHex (u.toNat / 4096), lowerHex (u.toNat / 256 % 16), lowerHex (u.toNat / 16 % 16), lowerHex (u.toNat % 16)]

/-- A unit of a JSON string. -/
def escapeUnit (u : UInt16) : JsString :=
  if u = 0x22 then [0x5C, 0x22]
  else if u = 0x5C then [0x5C, 0x5C]
  else if u = 0x08 then [0x5C, 0x62]
  else if u = 0x0C then [0x5C, 0x66]
  else if u = 0x0A then [0x5C, 0x6E]
  else if u = 0x0D then [0x5C, 0x72]
  else if u = 0x09 then [0x5C, 0x74]
  else if u < 0x20 ∨ isHighSurrogate u = true ∨ isLowSurrogate u = true then 0x5C :: 0x75 :: hex4 u
  else [u]

/-- A code point of a JSON string: a surrogate pair is not escaped. -/
def escapePiece : JsString → JsString
  | [u] => escapeUnit u
  | p => p

/-- A string as JSON writes it. -/
def quote (s : JsString) : JsString := 0x22 :: ((codePoints s).flatMap escapePiece ++ [0x22])

/-- A scalar as JSON writes it. -/
def scalarText : Scalar → JsString
  | .null => js "null"
  | .bool true => js "true"
  | .bool false => js "false"
  | .number value => value.text
  | .text value => quote value

/-- Texts with a comma between them. -/
def joined : List JsString → JsString
  | [] => []
  | [s] => s
  | s :: t :: rest => s ++ 0x2C :: joined (t :: rest)

/-- `JSON.stringify`, of `undefined` as it stands in an array. -/
def stringify : JsValue → JsString
  | .undefined => js "null"
  | .scalar value => scalarText value
  | .array length item => 0x5B :: (joined ((List.range length).map fun i => stringify (item i)) ++ [0x5D])
  | .object names _ member =>
    0x7B :: (joined ((names.filter fun name => !(member name).isUndefined).map fun name =>
      quote name ++ 0x3A :: stringify (member name)) ++ [0x7D])

/-! ## Strings -/

theorem lowerHexValue_lowerHex {n : ℕ} (h : n < 16) : lowerHexValue (lowerHex n) = n := by
  have hall : ∀ n < 16, lowerHexValue (lowerHex n) = n := by decide
  exact hall n h

/-- The unit of four digits. -/
def ofHex4 (a b c d : UInt16) : UInt16 := UInt16.ofNat (lowerHexValue a * 4096 + lowerHexValue b * 256 + lowerHexValue c * 16 + lowerHexValue d)

theorem ofHex4_hex4 (u : UInt16) :
    ofHex4 (lowerHex (u.toNat / 4096)) (lowerHex (u.toNat / 256 % 16)) (lowerHex (u.toNat / 16 % 16)) (lowerHex (u.toNat % 16)) =
      u := by
  have hu := u.toNat_lt
  unfold ofHex4
  rw [lowerHexValue_lowerHex (by omega), lowerHexValue_lowerHex (by omega), lowerHexValue_lowerHex (by omega), lowerHexValue_lowerHex (by omega)]
  have hnat : u.toNat / 4096 * 4096 + u.toNat / 256 % 16 * 256 + u.toNat / 16 % 16 * 16 + u.toNat % 16 = u.toNat := by omega
  rw [hnat, UInt16.ofNat_toNat]

/-- The unit of a short escape. -/
def unescape (u : UInt16) : UInt16 :=
  if u = 0x62 then 0x08 else if u = 0x66 then 0x0C else if u = 0x6E then 0x0A else if u = 0x72 then 0x0D
  else if u = 0x74 then 0x09 else u

/-- The first code point of a JSON string, and what follows it. -/
def readPiece : JsString → Option (JsString × JsString)
  | [] => none
  | [u] => some ([u], [])
  | u :: v :: rest =>
    if u = 0x5C then
      if v = 0x75 then
        match rest with
        | a :: b :: c :: d :: rest => some ([ofHex4 a b c d], rest)
        | _ => none
      else some ([unescape v], rest)
    else if isHighSurrogate u then some ([u, v], rest) else some ([u], v :: rest)

/-- A code point of a string. -/
def IsPiece (p : JsString) : Prop :=
  (∃ u, p = [u]) ∨ ∃ u v, p = [u, v] ∧ isHighSurrogate u = true ∧ isLowSurrogate v = true

theorem isPiece_of_mem {s p : JsString} (h : p ∈ codePoints s) : IsPiece p := by
  induction s using codePoints.induct with
  | case1 => cases h
  | case2 u => exact .inl ⟨u, List.mem_singleton.mp h⟩
  | case3 u v s hpair ih =>
    simp only [codePoints, hpair, if_true, List.mem_cons] at h
    rcases h with rfl | h
    · simp only [Bool.and_eq_true] at hpair
      exact .inr ⟨u, v, rfl, hpair.1, hpair.2⟩
    · exact ih h
  | case4 u v s hpair ih =>
    simp only [codePoints, hpair, Bool.false_eq_true, if_false, List.mem_cons] at h
    rcases h with rfl | h
    · exact .inl ⟨u, rfl⟩
    · exact ih h

theorem readPiece_plain {u : UInt16} (hescape : u ≠ 0x5C) (hhigh : isHighSurrogate u = false) (r : JsString) :
    readPiece (u :: r) = some ([u], r) := by
  cases r with
  | nil => rfl
  | cons v rest => simp [readPiece, hescape, hhigh]

theorem readPiece_escapeUnit (u : UInt16) (r : JsString) : readPiece (escapeUnit u ++ r) = some ([u], r) := by
  unfold escapeUnit
  split_ifs with h1 h2 h3 h4 h5 h6 h7 h8
  · subst h1; rfl
  · subst h2; rfl
  · subst h3; rfl
  · subst h4; rfl
  · subst h5; rfl
  · subst h6; rfl
  · subst h7; rfl
  · show some ([ofHex4 _ _ _ _], r) = _
    rw [ofHex4_hex4]
  · simp only [not_or, Bool.not_eq_true] at h8
    exact readPiece_plain h2 h8.2.1 r

theorem prefixFree_escapePiece : PrefixFree IsPiece escapePiece := by
  refine prefixFree_of_read readPiece ?_
  rintro p (⟨u, rfl⟩ | ⟨u, v, rfl, hhigh, -⟩) r
  · exact readPiece_escapeUnit u r
  · have hescape : u ≠ 0x5C := by
      rintro rfl
      exact absurd hhigh (by decide)
    simp [escapePiece, readPiece, hescape, hhigh]

theorem escapePiece_head {p : JsString} (h : IsPiece p) : escapePiece p ≠ [] ∧ (escapePiece p).head? ≠ some 0x22 := by
  rcases h with ⟨u, rfl⟩ | ⟨u, v, rfl, hhigh, -⟩
  · show escapeUnit u ≠ [] ∧ (escapeUnit u).head? ≠ some 0x22
    unfold escapeUnit
    split_ifs with h1 <;> simp [h1]
  · refine ⟨List.cons_ne_nil _ _, fun heq => ?_⟩
    obtain rfl := Option.some.inj heq
    exact absurd hhigh (by decide)

/-- **A JSON string shows its string, and where it ends.** -/
theorem quote_append {s t r r' : JsString} (h : quote s ++ r = quote t ++ r') : s = t ∧ r = r' := by
  simp only [quote, List.cons_append, List.append_assoc, List.nil_append, List.cons.injEq, true_and] at h
  obtain ⟨hpieces, hrest⟩ := prefixFree_escapePiece.terminated (fun p hp => (escapePiece_head hp).1)
    (fun p hp => (escapePiece_head hp).2) (fun p hp => isPiece_of_mem hp) (fun p hp => isPiece_of_mem hp) h
  have hs := congrArg List.flatten hpieces
  rw [codePoints_flatten, codePoints_flatten] at hs
  exact ⟨hs, hrest⟩

/-! ## Scalars -/

/-- What may follow a number. -/
def Delimited (r : JsString) : Prop := ∀ u, r.head? = some u → isNumberUnit u = false

/-- A number shows where it ends before anything that goes on with no unit of a number. -/
theorem number_append {a b : JsNumber} {r r' : JsString} (hr : Delimited r) (hr' : Delimited r')
    (h : a.text ++ r = b.text ++ r') : a = b ∧ r = r' := by
  have htake : ∀ {n : JsNumber} {r : JsString}, Delimited r → (n.text ++ r).takeWhile isNumberUnit = n.text := by
    intro n r hr
    rw [List.takeWhile_append_of_pos n.units]
    cases r with
    | nil => simp
    | cons u rest => simp [hr u rfl]
  have htext : a.text = b.text := by rw [← htake hr, h, htake hr']
  refine ⟨?_, List.append_cancel_left (by rw [← h, htext])⟩
  cases a
  cases b
  cases htext
  rfl

/-- The first unit of a scalar's text, with a number's digits for one. -/
def scalarMark : Scalar → UInt16
  | .null => 0x6E
  | .bool true => 0x74
  | .bool false => 0x66
  | .number _ => 0x30
  | .text _ => 0x22

/-- The first unit of a text, with a number's digits for one. -/
def markOf (u : UInt16) : UInt16 := if isNumberUnit u then 0x30 else u

theorem scalarText_head (value : Scalar) : ∃ u rest, scalarText value = u :: rest ∧ markOf u = scalarMark value := by
  cases value with
  | null => exact ⟨_, _, rfl, rfl⟩
  | bool flag => cases flag <;> exact ⟨_, _, rfl, rfl⟩
  | number n =>
    obtain ⟨text, hne, hunits⟩ := n
    cases text with
    | nil => exact absurd rfl hne
    | cons u rest => exact ⟨u, rest, rfl, if_pos (hunits u List.mem_cons_self)⟩
  | text s => exact ⟨_, _, rfl, rfl⟩

theorem scalar_cases {a b : Scalar} (h : scalarMark a = scalarMark b) :
    a = b ∨ (∃ n m, a = .number n ∧ b = .number m) ∨ ∃ s t, a = .text s ∧ b = .text t := by
  rcases a with _ | (_ | _) | n | s <;> rcases b with _ | (_ | _) | m | t <;>
    first
    | exact .inl rfl
    | exact .inr (.inl ⟨_, _, rfl, rfl⟩)
    | exact .inr (.inr ⟨_, _, rfl, rfl⟩)
    | simp [scalarMark] at h

/-- **The text of a scalar shows the scalar, and where it ends.** -/
theorem scalarText_append {a b : Scalar} {r r' : JsString} (hr : Delimited r) (hr' : Delimited r')
    (h : scalarText a ++ r = scalarText b ++ r') : a = b ∧ r = r' := by
  have hmark : scalarMark a = scalarMark b := by
    obtain ⟨u, rest, hu, hmark⟩ := scalarText_head a
    obtain ⟨v, rest', hv, hmark'⟩ := scalarText_head b
    rw [hu, hv, List.cons_append, List.cons_append] at h
    rw [← hmark, ← hmark', (List.cons.inj h).1]
  rcases scalar_cases hmark with rfl | ⟨n, m, rfl, rfl⟩ | ⟨s, t, rfl, rfl⟩
  · exact ⟨rfl, List.append_cancel_left h⟩
  · obtain ⟨rfl, hrest⟩ := number_append hr hr' h
    exact ⟨rfl, hrest⟩
  · obtain ⟨rfl, hrest⟩ := quote_append h
    exact ⟨rfl, hrest⟩

/-! ## Lists -/

theorem joined_cons (s : JsString) (l : List JsString) : joined (s :: l) = s ++ l.flatMap fun t => 0x2C :: t := by
  induction l generalizing s with
  | nil => simp [joined]
  | cons t rest ih =>
    rw [joined, ih, List.flatMap_cons, List.cons_append]

section

variable {α β : Type} {f : α → JsString} {g : β → JsString} {R : α → β → Prop} {stop : UInt16}

theorem delimited_tail (hstop : isNumberUnit stop = false) (l : List JsString) (r : JsString) :
    Delimited ((l.flatMap fun t => 0x2C :: t) ++ stop :: r) := by
  intro u hu
  cases l with
  | nil =>
    obtain rfl := Option.some.inj hu
    exact hstop
  | cons t rest =>
    obtain rfl := Option.some.inj hu
    rfl

/-- The items after the first show themselves, and where the list ends. -/
theorem tail_append (hstop : isNumberUnit stop = false) (hcomma : stop ≠ 0x2C) {l : List α} {l' : List β}
    (hitem : ∀ a ∈ l, ∀ b ∈ l', ∀ r r', Delimited r → Delimited r' → f a ++ r = g b ++ r' → R a b ∧ r = r') {r r' : JsString}
    (h : ((l.map f).flatMap fun t => 0x2C :: t) ++ stop :: r = ((l'.map g).flatMap fun t => 0x2C :: t) ++ stop :: r') :
    List.Forall₂ R l l' ∧ r = r' := by
  induction l generalizing l' with
  | nil =>
    cases l' with
    | nil => exact ⟨.nil, (List.cons.inj h).2⟩
    | cons b rest => exact absurd (List.cons.inj h).1 hcomma
  | cons a rest ih =>
    cases l' with
    | nil => exact absurd (List.cons.inj h).1.symm hcomma
    | cons b rest' =>
      simp only [List.map_cons, List.flatMap_cons, List.cons_append, List.append_assoc, List.cons.injEq, true_and] at h
      obtain ⟨hab, htail⟩ := hitem a List.mem_cons_self b List.mem_cons_self _ _ (delimited_tail hstop _ _)
        (delimited_tail hstop _ _) h
      obtain ⟨hrest, hr⟩ := ih (fun x hx y hy => hitem x (List.mem_cons_of_mem _ hx) y (List.mem_cons_of_mem _ hy)) htail
      exact ⟨.cons hab hrest, hr⟩

/-- **A list shows its items, and where it ends.** -/
theorem joined_append (hstop : isNumberUnit stop = false) (hcomma : stop ≠ 0x2C) {l : List α} {l' : List β}
    (hitem : ∀ a ∈ l, ∀ b ∈ l', ∀ r r', Delimited r → Delimited r' → f a ++ r = g b ++ r' → R a b ∧ r = r')
    (hhead : ∀ a ∈ l, ∀ r, (f a ++ r).head? ≠ some stop) (hhead' : ∀ b ∈ l', ∀ r, (g b ++ r).head? ≠ some stop) {r r' : JsString}
    (h : joined (l.map f) ++ stop :: r = joined (l'.map g) ++ stop :: r') : List.Forall₂ R l l' ∧ r = r' := by
  cases l with
  | nil =>
    cases l' with
    | nil => exact ⟨.nil, (List.cons.inj h).2⟩
    | cons b rest =>
      rw [List.map_cons, joined_cons, List.append_assoc] at h
      exact absurd (by rw [← h]; rfl) (hhead' b List.mem_cons_self _)
  | cons a rest =>
    cases l' with
    | nil =>
      rw [List.map_cons, joined_cons, List.append_assoc] at h
      exact absurd (by rw [h]; rfl) (hhead a List.mem_cons_self _)
    | cons b rest' =>
      rw [List.map_cons, List.map_cons, joined_cons, joined_cons, List.append_assoc, List.append_assoc] at h
      obtain ⟨hab, htail⟩ := hitem a List.mem_cons_self b List.mem_cons_self _ _ (delimited_tail hstop _ _)
        (delimited_tail hstop _ _) h
      obtain ⟨hrest, hr⟩ := tail_append hstop hcomma
        (fun x hx y hy => hitem x (List.mem_cons_of_mem _ hx) y (List.mem_cons_of_mem _ hy)) htail
      exact ⟨.cons hab hrest, hr⟩

end

theorem stringify_head (v : JsValue) (r : JsString) : (stringify v ++ r).head? ≠ some 0x5D := by
  cases v with
  | undefined => exact (by decide : some (0x6E : UInt16) ≠ some 0x5D)
  | scalar value =>
    obtain ⟨u, rest, hu, hmark⟩ := scalarText_head value
    rw [stringify, hu]
    intro heq
    obtain rfl := Option.some.inj heq
    rcases value with _ | (_ | _) | n | s <;> exact absurd hmark (by simp [markOf, isNumberUnit, scalarMark])
  | array length item => exact (by decide : some (0x5B : UInt16) ≠ some 0x5D)
  | object names distinct member => exact (by decide : some (0x7B : UInt16) ≠ some 0x5D)

end JavaScript
