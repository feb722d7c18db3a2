import SlugBase.Lib.Double
import Mathlib.Data.Nat.Cast.WithTop
import Mathlib.Data.Prod.Lex
import Mathlib.Data.Sum.Order
import Mathlib.Data.List.Lex
import Mathlib.Data.List.Sort
import Mathlib.Data.Char
import Mathlib.Order.Compare
import Mathlib.Tactic.SplitIfs

/-!
# Release versions

The release tags of the repository, and the order by which the previous release is found.

* `toNumber`: a numeral as the language reads it, a double or `Infinity`;
* `matchTag`, `parseVersion`, `compareVersions`: `RELEASE_TAG` and the comparison of what it captures;
* `releaseTags`, `latestRelease`: the tags that git lists, sorted, and the last of them;
* `precedence`: the precedence of Semantic Versioning 2.0.0, an order of keys; `ReadAsWritten`: the two tags are read apart
  where they are written apart;
* **`compareVersions_eq`**: the comparison is that of the places as read, or `NaN`;
* **`compareVersions_sound`**: when it is the precedence, and what then holds of it and of the sorted tags.
-/

namespace SlugBase.Release

open JavaScript.Double

/-! ## Numbers -/

/-- The number that a run of digits denotes. -/
def digitsValue (digits : List Char) : ℕ := digits.foldl (fun n c => 10 * n + (c.toNat - 48)) 0

/-- `Number` of a whole number: the nearest double, of two the even one; none is `Infinity`. -/
def roundToDouble (n : ℕ) : WithTop ℚ := if nearest n < maxDouble then (nearest n : ℚ) else ⊤

/-- `Number(text)` of a run of digits. -/
def toNumber (digits : List Char) : WithTop ℚ := roundToDouble (digitsValue digits)

/-- The sign of a number that a comparison answers. -/
inductive Sign
  | negative
  | zero
  | positive
  | notANumber
deriving DecidableEq, Repr

/-- The sign of `left - right`. -/
def difference (left right : WithTop ℚ) : Sign :=
  if left = ⊤ ∧ right = ⊤ then .notANumber
  else if left < right then .negative
  else if right < left then .positive
  else .zero

/-! ## Tags -/

/-- What `RELEASE_TAG` captures: three runs of digits and a pre-release. -/
structure Tag where
  major : List Char
  minor : List Char
  patch : List Char
  prerelease : Option (List Char)
deriving DecidableEq, Repr

/-- `\d+`, as much as there is. -/
def takeDigits (text : List Char) : Option (List Char × List Char) :=
  let digits := text.takeWhile Char.isDigit
  if digits = [] then none else some (digits, text.dropWhile Char.isDigit)

/-- `[0-9A-Za-z.-]`. -/
def isPrereleaseChar (c : Char) : Bool := c.isAlphanum || c == '.' || c == '-'

/-- `RELEASE_TAG`: `/^v?(\d+)\.(\d+)\.(\d+)(?:-([0-9A-Za-z.-]+))?$/`. -/
def matchTag (tag : List Char) : Option Tag := do
  let text := if tag.head? = some 'v' then tag.tail else tag
  let (major, text) ← takeDigits text
  guard (text.head? = some '.')
  let (minor, text) ← takeDigits text.tail
  guard (text.head? = some '.')
  let (patch, text) ← takeDigits text.tail
  match text with
  | [] => some ⟨major, minor, patch, none⟩
  | dash :: rest =>
    guard (dash = '-' ∧ rest ≠ [] ∧ rest.all isPrereleaseChar)
    some ⟨major, minor, patch, some rest⟩

/-- `Version`. -/
structure Version where
  numbers : WithTop ℚ × WithTop ℚ × WithTop ℚ
  prerelease : Option (List (List Char))

/-- What `parseVersion` makes of the captures. -/
def Tag.version (tag : Tag) : Version :=
  ⟨(toNumber tag.major, toNumber tag.minor, toNumber tag.patch), tag.prerelease.map fun text => text.splitOn '.'⟩

/-- `parseVersion`. -/
def parseVersion (tag : List Char) : Option Version := (matchTag tag).map Tag.version

/-- `/^\d+$/`. -/
def isNumeric (identifier : List Char) : Bool := !identifier.isEmpty && identifier.all Char.isDigit

/-- The loop over the identifiers of two pre-releases. -/
def compareIdentifiers : List (List Char) → List (List Char) → Sign
  | [], [] => .zero
  | [], _ :: _ => .negative
  | _ :: _, [] => .positive
  | left :: lefts, right :: rights =>
    if isNumeric left && isNumeric right then
      match difference (toNumber left) (toNumber right) with
      | .zero => compareIdentifiers lefts rights
      | sign => sign
    else if isNumeric left != isNumeric right then if isNumeric left then .negative else .positive
    else if left ≠ right then if left < right then .negative else .positive
    else compareIdentifiers lefts rights

/-- The pre-releases of two versions of equal numbers. -/
def comparePrereleases : Option (List (List Char)) → Option (List (List Char)) → Sign
  | none, none => .zero
  | none, some _ => .positive
  | some _, none => .negative
  | some lefts, some rights => compareIdentifiers lefts rights

/-- `compareVersions`. -/
def compareVersions (a b : Version) : Sign :=
  match difference a.numbers.1 b.numbers.1 with
  | .zero =>
    match difference a.numbers.2.1 b.numbers.2.1 with
    | .zero =>
      match difference a.numbers.2.2 b.numbers.2.2 with
      | .zero => comparePrereleases a.prerelease b.prerelease
      | sign => sign
    | sign => sign
  | sign => sign

/-- `compareVersions` of two tags as they are listed. -/
def compareTags (a b : List Char) : Sign :=
  match parseVersion a, parseVersion b with
  | some a, some b => compareVersions a b
  | _, _ => .notANumber

/-- `releaseTags`, of the tags that git lists. -/
def releaseTags (lines : List (List Char)) : List (List Char) :=
  (lines.filter fun line => (parseVersion line).isSome).mergeSort fun a b => compareTags a b != .positive

/-- The tag of `latestRelease`. -/
def latestRelease (lines : List (List Char)) : Option (List Char) := (releaseTags lines).getLast?

/-! ## Precedence -/

section

variable {N : Type} [LinearOrder N]

/-- An identifier of a pre-release: a number, below every text. -/
abbrev Identifier (N : Type) := N ⊕ₗ List Char

/-- **The precedence of Semantic Versioning 2.0.0**, section 11: the three numbers, then the identifiers from left to
right, fewer below more, and a release above its pre-releases. -/
abbrev Precedence (N : Type) := N ×ₗ N ×ₗ N ×ₗ WithTop (List (Identifier N))

/-- An identifier, its digits read as a number. -/
def identifierOf (number : List Char → N) (identifier : List Char) : Identifier N :=
  if isNumeric identifier then toLex (.inl (number identifier)) else toLex (.inr identifier)

/-- The precedence of a tag whose digits are read as numbers. -/
def Tag.precedenceWith (number : List Char → N) (tag : Tag) : Precedence N :=
  toLex (number tag.major, toLex (number tag.minor, toLex (number tag.patch,
    match tag.prerelease with
    | none => ⊤
    | some text => ((text.splitOn '.').map (identifierOf number) : List (Identifier N)))))

end

/-- The precedence of a tag as it is written. -/
def Tag.precedence (tag : Tag) : Precedence ℕ := tag.precedenceWith digitsValue

/-- The precedence of a tag that git lists; below all tags what is none. -/
def precedenceOf (line : List Char) : WithBot (Precedence ℕ) := (matchTag line).map Tag.precedence

section

variable {N : Type} [LinearOrder N]

/-- What stands at a place of a tag: an identifier, or the end of a release, above all of them. -/
abbrev Place (N : Type) := WithTop (Identifier N)

def Place.numeral (n : N) : Place N := ((toLex (.inl n) : Identifier N) : WithTop (Identifier N))

/-- The places of a pre-release, or the end of a release. -/
def prereleasePlaces (number : List Char → N) : Option (List Char) → List (Place N)
  | none => [⊤]
  | some text => ((text.splitOn '.').map (identifierOf number)).map (WithTop.some)

/-- The places of a tag from left to right, its three numbers first. -/
def Tag.placesWith (number : List Char → N) (tag : Tag) : List (Place N) :=
  .numeral (number tag.major) :: .numeral (number tag.minor) :: .numeral (number tag.patch) ::
    prereleasePlaces number tag.prerelease

end

/-- The places of a tag as they are written. -/
def Tag.places (tag : Tag) : List (Place ℕ) := tag.placesWith digitsValue

/-- The places of a tag as the language reads them. -/
def Tag.readPlaces (tag : Tag) : List (Place (WithTop ℚ)) := tag.placesWith toNumber

/-- A place as the language reads it: a numeral is a double. -/
def readPlace : Place ℕ → Place (WithTop ℚ)
  | ⊤ => ⊤
  | (identifier : Identifier ℕ) =>
    match ofLex identifier with
    | .inl n => .numeral (roundToDouble n)
    | .inr text => ((toLex (.inr text) : Identifier (WithTop ℚ)) : WithTop (Identifier (WithTop ℚ)))

/-- Whether two sequences of places have `Infinity` at one place, and before it the same. -/
def meetAtInfinity : List (Place (WithTop ℚ)) → List (Place (WithTop ℚ)) → Bool
  | left :: lefts, right :: rights =>
    decide (left = right) && (decide (left = .numeral ⊤) || meetAtInfinity lefts rights)
  | _, _ => false

/-! ## Signs of an order -/

section

variable {α β : Type} [LinearOrder α] [LinearOrder β]

/-- The sign of a comparison in an order. -/
def orderSign (a b : α) : Sign := if a < b then .negative else if b < a then .positive else .zero

/-- The first of two signs that is not zero. -/
def Sign.orElse : Sign → Sign → Sign
  | .zero, sign => sign
  | sign, _ => sign

/-- The sign of the comparison the other way round. -/
def Sign.opposite : Sign → Sign
  | .negative => .positive
  | .positive => .negative
  | sign => sign

theorem orderSign_of_lt {a b : α} (h : a < b) : orderSign a b = .negative := if_pos h

theorem orderSign_of_gt {a b : α} (h : b < a) : orderSign a b = .positive := by
  rw [orderSign, if_neg h.not_gt, if_pos h]

theorem orderSign_self (a : α) : orderSign a a = .zero := by
  rw [orderSign, if_neg (lt_irrefl a), if_neg (lt_irrefl a)]

theorem orderSign_ne_notANumber (a b : α) : orderSign a b ≠ .notANumber := by
  rw [orderSign]
  split_ifs <;> exact Sign.noConfusion

theorem orderSign_opposite (a b : α) : orderSign b a = (orderSign a b).opposite := by
  rcases lt_trichotomy a b with h | rfl | h
  · rw [orderSign_of_lt h, orderSign_of_gt h]
    rfl
  · rw [orderSign_self]
    rfl
  · rw [orderSign_of_lt h, orderSign_of_gt h]
    rfl

theorem orderSign_zero_iff {a b : α} : orderSign a b = .zero ↔ a = b := by
  rcases lt_trichotomy a b with h | rfl | h
  · rw [orderSign_of_lt h]
    exact ⟨Sign.noConfusion, fun heq => absurd heq h.ne⟩
  · exact ⟨fun _ => rfl, fun _ => orderSign_self a⟩
  · rw [orderSign_of_gt h]
    exact ⟨Sign.noConfusion, fun heq => absurd heq h.ne'⟩

theorem orderSign_ne_positive_iff {a b : α} : orderSign a b ≠ .positive ↔ a ≤ b := by
  rcases lt_or_ge b a with h | h
  · rw [orderSign_of_gt h]
    exact ⟨fun hne => absurd rfl hne, fun hle => absurd h hle.not_gt⟩
  · refine ⟨fun _ => h, fun _ heq => ?_⟩
    rw [orderSign, if_neg h.not_gt] at heq
    split_ifs at heq

theorem orderSign_of_lex {γ : Type} [LinearOrder γ] {x y : γ} {a a' : α} {b b' : β} (hlt : x < y ↔ a < a' ∨ a = a' ∧ b < b')
    (hgt : y < x ↔ a' < a ∨ a' = a ∧ b' < b) : orderSign x y = (orderSign a a').orElse (orderSign b b') := by
  rcases lt_trichotomy a a' with h | rfl | h
  · rw [orderSign_of_lt h, orderSign_of_lt (hlt.mpr (.inl h))]
    rfl
  · rw [orderSign_self, Sign.orElse, orderSign, orderSign]
    simp only [lt_self_iff_false, false_or, true_and] at hlt hgt
    simp only [hlt, hgt]
  · rw [orderSign_of_gt h, orderSign_of_gt (hgt.mpr (.inl h))]
    rfl

theorem orderSign_toLex (a a' : α) (b b' : β) :
    orderSign (toLex (a, b)) (toLex (a', b')) = (orderSign a a').orElse (orderSign b b') :=
  orderSign_of_lex Prod.Lex.toLex_lt_toLex Prod.Lex.toLex_lt_toLex

theorem orderSign_cons (a a' : α) (l l' : List α) :
    orderSign (a :: l) (a' :: l') = (orderSign a a').orElse (orderSign l l') :=
  orderSign_of_lex List.cons_lt_cons_iff List.cons_lt_cons_iff

theorem orderSign_coe (a b : α) : orderSign (a : WithTop α) b = orderSign a b := by
  simp only [orderSign, WithTop.coe_lt_coe]

theorem orderSign_numeral (a b : α) : orderSign (Place.numeral a) (Place.numeral b) = orderSign a b := by
  rw [Place.numeral, Place.numeral, orderSign_coe]
  simp only [orderSign, Sum.Lex.inl_lt_inl_iff]

theorem orderSign_somes : ∀ l l' : List α,
    orderSign (l.map (WithTop.some : α → WithTop α)) (l'.map WithTop.some) = orderSign l l'
  | [], [] => by rw [List.map_nil, orderSign_self, orderSign_self]
  | [], _ :: _ => by
    rw [List.map_nil, List.map_cons, orderSign_of_lt (List.nil_lt_cons _ _), orderSign_of_lt (List.nil_lt_cons _ _)]
  | _ :: _, [] => by
    rw [List.map_nil, List.map_cons, orderSign_of_gt (List.nil_lt_cons _ _), orderSign_of_gt (List.nil_lt_cons _ _)]
  | a :: l, a' :: l' => by
    rw [List.map_cons, List.map_cons, orderSign_cons, orderSign_cons, orderSign_somes l l']
    exact congrArg (Sign.orElse · _) (orderSign_coe a a')

end

theorem splitOn_ne_nil (text : List Char) : text.splitOn '.' ≠ [] := List.splitOn_ne_nil _ _

/-- **The precedence of tags is the order of their places**, from left to right. -/
theorem orderSign_places {N : Type} [LinearOrder N] (number : List Char → N) (a b : Tag) :
    orderSign (a.precedenceWith number) (b.precedenceWith number) =
      orderSign (a.placesWith number) (b.placesWith number) := by
  rw [Tag.precedenceWith, Tag.precedenceWith, orderSign_toLex, orderSign_toLex, orderSign_toLex, Tag.placesWith,
    Tag.placesWith, orderSign_cons, orderSign_cons, orderSign_cons, orderSign_numeral, orderSign_numeral,
    orderSign_numeral]
  refine congrArg _ (congrArg _ (congrArg _ ?_))
  have hends (text : List Char) : ∃ place places, prereleasePlaces number (some text) = ((place : Identifier N) : Place N) :: places := by
    obtain ⟨first, rest, hsplit⟩ := List.exists_cons_of_ne_nil (splitOn_ne_nil text)
    refine ⟨identifierOf number first, (rest.map (identifierOf number)).map WithTop.some, ?_⟩
    rw [prereleasePlaces, hsplit]
    rfl
  cases ha : a.prerelease with
  | none =>
    cases hb : b.prerelease with
    | none => rw [orderSign_self, orderSign_self]
    | some text =>
      obtain ⟨place, places, hplaces⟩ := hends text
      rw [orderSign_of_gt (WithTop.coe_lt_top _), hplaces, prereleasePlaces, orderSign_cons,
        orderSign_of_gt (WithTop.coe_lt_top place)]
      rfl
  | some text =>
    cases hb : b.prerelease with
    | none =>
      obtain ⟨place, places, hplaces⟩ := hends text
      rw [orderSign_of_lt (WithTop.coe_lt_top _), hplaces, prereleasePlaces, orderSign_cons,
        orderSign_of_lt (WithTop.coe_lt_top place)]
      rfl
    | some text' =>
      rw [prereleasePlaces, prereleasePlaces, orderSign_somes]
      exact orderSign_coe _ _

/-! ## The comparison as read -/

/-- The comparison of places as read: `NaN` where both are `Infinity`, else their order. -/
def readSign (lefts rights : List (Place (WithTop ℚ))) : Sign :=
  if meetAtInfinity lefts rights then .notANumber else orderSign lefts rights

/-- One place: `NaN` where both are `Infinity`, else their order, else the rest. -/
theorem readSign_cons (left right : Place (WithTop ℚ)) (lefts rights : List (Place (WithTop ℚ))) :
    readSign (left :: lefts) (right :: rights) =
      if left = .numeral ⊤ ∧ right = .numeral ⊤ then .notANumber
      else (orderSign left right).orElse (readSign lefts rights) := by
  rw [readSign, readSign, meetAtInfinity, orderSign_cons]
  by_cases heq : left = right
  · subst heq
    rw [orderSign_self, decide_eq_true rfl, Bool.true_and]
    by_cases htop : left = .numeral ⊤
    · rw [decide_eq_true htop, Bool.true_or, if_pos rfl, if_pos ⟨htop, htop⟩]
    · rw [decide_eq_false htop, Bool.false_or, if_neg (fun hboth : _ ∧ _ => htop hboth.1)]
      rfl
  · have hne : ¬ (left = .numeral ⊤ ∧ right = .numeral ⊤) := fun hboth => heq (hboth.1.trans hboth.2.symm)
    rw [decide_eq_false heq, Bool.false_and, if_neg Bool.false_ne_true, if_neg hne]
    rcases lt_or_gt_of_ne heq with h | h
    · rw [orderSign_of_lt h]
      rfl
    · rw [orderSign_of_gt h]
      rfl

theorem readSign_nil : readSign [] [] = .zero := (if_neg Bool.false_ne_true).trans (orderSign_self _)

theorem readSign_shorter (right : Place (WithTop ℚ)) (rights : List (Place (WithTop ℚ))) :
    readSign [] (right :: rights) = .negative :=
  (if_neg Bool.false_ne_true).trans (orderSign_of_lt (List.nil_lt_cons right rights))

theorem readSign_longer (left : Place (WithTop ℚ)) (lefts : List (Place (WithTop ℚ))) :
    readSign (left :: lefts) [] = .positive :=
  (if_neg Bool.false_ne_true).trans (orderSign_of_gt (List.nil_lt_cons left lefts))

theorem numeral_inj {N : Type} [LinearOrder N] {n m : N} : Place.numeral n = Place.numeral m ↔ n = m := by
  simp [Place.numeral]

theorem difference_eq {left right : WithTop ℚ} (h : ¬ (left = ⊤ ∧ right = ⊤)) : difference left right = orderSign left right := by
  rw [difference, if_neg h, orderSign]

theorem difference_orElse (left right : WithTop ℚ) (lefts rights : List (Place (WithTop ℚ))) :
    (difference left right).orElse (readSign lefts rights) = readSign (.numeral left :: lefts) (.numeral right :: rights) := by
  rw [readSign_cons, orderSign_numeral]
  simp only [numeral_inj]
  by_cases htop : left = ⊤ ∧ right = ⊤
  · rw [if_pos htop, htop.1, htop.2]
    rfl
  · rw [if_neg htop, difference_eq htop]

/-- The place of an identifier of a pre-release. -/
def identifierPlace (identifier : List Char) : Place (WithTop ℚ) := (identifierOf toNumber identifier : Identifier (WithTop ℚ))

theorem isNumeric_identifier (identifier : List Char) :
    (isNumeric identifier = true ∧ identifierPlace identifier = .numeral (toNumber identifier)) ∨
      (isNumeric identifier = false ∧
        identifierPlace identifier = ((toLex (.inr identifier) : Identifier (WithTop ℚ)) : Place (WithTop ℚ))) := by
  unfold identifierPlace identifierOf
  cases isNumeric identifier with
  | true => exact .inl ⟨rfl, congrArg _ (if_pos rfl)⟩
  | false => exact .inr ⟨rfl, congrArg _ (if_neg Bool.false_ne_true)⟩

/-- One turn of the loop over the identifiers. -/
theorem compareIdentifiers_cons (left right : List Char) (lefts rights : List (List Char)) :
    compareIdentifiers (left :: lefts) (right :: rights) =
      if identifierPlace left = .numeral ⊤ ∧ identifierPlace right = .numeral ⊤ then .notANumber
      else (orderSign (identifierPlace left) (identifierPlace right)).orElse (compareIdentifiers lefts rights) := by
  have htext (text : List Char) :
      ((toLex (.inr text) : Identifier (WithTop ℚ)) : Place (WithTop ℚ)) ≠ Place.numeral ⊤ := by
    simp [Place.numeral]
  rw [compareIdentifiers]
  rcases isNumeric_identifier left with ⟨hleft, hl⟩ | ⟨hleft, hl⟩
  · rcases isNumeric_identifier right with ⟨hright, hr⟩ | ⟨hright, hr⟩
    · rw [hl, hr, hleft, hright, Bool.and_true, if_pos rfl, orderSign_numeral]
      simp only [numeral_inj]
      by_cases htop : toNumber left = ⊤ ∧ toNumber right = ⊤
      · rw [if_pos htop, htop.1, htop.2]
        rfl
      · rw [if_neg htop, difference_eq htop]
        cases orderSign (toNumber left) (toNumber right) <;> rfl
    · have hlt : Place.numeral (toNumber left) < ((toLex (.inr right) : Identifier (WithTop ℚ)) : Place (WithTop ℚ)) :=
        WithTop.coe_lt_coe.mpr (Sum.Lex.inl_lt_inr _ _)
      have hmixed : ¬ (Place.numeral (toNumber left) = .numeral ⊤ ∧
          ((toLex (.inr right) : Identifier (WithTop ℚ)) : Place (WithTop ℚ)) = Place.numeral ⊤) := fun hboth => htext right hboth.2
      rw [hl, hr, if_neg hmixed, orderSign_of_lt hlt]
      simp [hleft, hright, Sign.orElse]
  · have hmixed : ¬ (((toLex (.inr left) : Identifier (WithTop ℚ)) : Place (WithTop ℚ)) = Place.numeral ⊤ ∧
        identifierPlace right = .numeral ⊤) := fun hboth => htext left hboth.1
    rw [hl, if_neg hmixed]
    rcases isNumeric_identifier right with ⟨hright, hr⟩ | ⟨hright, hr⟩
    · have hgt : Place.numeral (toNumber right) < ((toLex (.inr left) : Identifier (WithTop ℚ)) : Place (WithTop ℚ)) :=
        WithTop.coe_lt_coe.mpr (Sum.Lex.inl_lt_inr _ _)
      rw [hr, orderSign_of_gt hgt]
      simp [hleft, hright, Sign.orElse]
    · rw [hr, hleft, hright, orderSign_coe]
      simp only [Bool.and_self, Bool.false_eq_true, if_false, bne_self_eq_false]
      rcases lt_trichotomy left right with h | rfl | h
      · rw [orderSign_of_lt (Sum.Lex.inr_lt_inr_iff.mpr h), if_pos h.ne, if_pos (show left < right from h)]
        rfl
      · rw [orderSign_self]
        simp only [ne_eq, not_true_eq_false, if_false]
        rfl
      · rw [orderSign_of_gt (Sum.Lex.inr_lt_inr_iff.mpr h), if_pos h.ne', if_neg (show ¬ left < right from h.not_gt)]
        rfl

theorem compareIdentifiers_eq : ∀ lefts rights : List (List Char),
    compareIdentifiers lefts rights = readSign (lefts.map identifierPlace) (rights.map identifierPlace)
  | [], [] => by
    rw [compareIdentifiers, List.map_nil, readSign_nil]
  | [], right :: rights => by
    rw [compareIdentifiers, List.map_nil, List.map_cons, readSign_shorter]
  | left :: lefts, [] => by
    rw [compareIdentifiers, List.map_nil, List.map_cons, readSign_longer]
  | left :: lefts, right :: rights => by
    rw [compareIdentifiers_cons, compareIdentifiers_eq lefts rights, List.map_cons, List.map_cons, readSign_cons]

theorem comparePrereleases_eq (left right : Option (List Char)) :
    comparePrereleases (left.map fun text => text.splitOn '.') (right.map fun text => text.splitOn '.') =
      readSign (prereleasePlaces toNumber left) (prereleasePlaces toNumber right) := by
  have htop : (⊤ : Place (WithTop ℚ)) ≠ Place.numeral ⊤ := WithTop.top_ne_coe
  have hplaces (text : List Char) : prereleasePlaces toNumber (some text) = (text.splitOn '.').map identifierPlace := by
    rw [prereleasePlaces, List.map_map]
    rfl
  have hends (text : List Char) : ∃ first rest, (text.splitOn '.').map identifierPlace = identifierPlace first :: rest := by
    obtain ⟨first, rest, hsplit⟩ := List.exists_cons_of_ne_nil (splitOn_ne_nil text)
    exact ⟨first, rest.map identifierPlace, by rw [hsplit, List.map_cons]⟩
  cases left with
  | none =>
    cases right with
    | none =>
      rw [prereleasePlaces, readSign_cons, if_neg fun hboth => htop hboth.1, orderSign_self, readSign_nil]
      rfl
    | some right =>
      obtain ⟨first, rest, hfirst⟩ := hends right
      rw [hplaces, hfirst, prereleasePlaces, readSign_cons, if_neg fun hboth => htop hboth.1,
        orderSign_of_gt (WithTop.coe_lt_top _)]
      rfl
  | some left =>
    cases right with
    | none =>
      obtain ⟨first, rest, hfirst⟩ := hends left
      rw [hplaces, hfirst, prereleasePlaces, readSign_cons, if_neg fun hboth => htop hboth.2,
        orderSign_of_lt (WithTop.coe_lt_top _)]
      rfl
    | some right => rw [Option.map_some, Option.map_some, comparePrereleases, compareIdentifiers_eq, hplaces, hplaces]

/-- **The comparison is that of the places as read.** -/
theorem compareVersions_eq (a b : Tag) : compareVersions a.version b.version = readSign a.readPlaces b.readPlaces := by
  have hsteps : compareVersions a.version b.version =
      (difference (toNumber a.major) (toNumber b.major)).orElse ((difference (toNumber a.minor) (toNumber b.minor)).orElse
        ((difference (toNumber a.patch) (toNumber b.patch)).orElse
          (comparePrereleases (a.prerelease.map fun text => text.splitOn '.')
            (b.prerelease.map fun text => text.splitOn '.')))) := by
    unfold compareVersions Tag.version
    dsimp only
    cases difference (toNumber a.major) (toNumber b.major) with
    | zero =>
      cases difference (toNumber a.minor) (toNumber b.minor) with
      | zero => cases difference (toNumber a.patch) (toNumber b.patch) <;> rfl
      | _ => rfl
    | _ => rfl
  rw [hsteps, comparePrereleases_eq, difference_orElse, difference_orElse, difference_orElse]
  rfl

/-! ## Read as written -/

theorem roundToDouble_mono {n m : ℕ} (h : n ≤ m) : roundToDouble n ≤ roundToDouble m := by
  have hround : nearest n ≤ nearest m := nearest_mono (Nat.cast_nonneg n) (Nat.cast_le.mpr h)
  unfold roundToDouble
  split_ifs with hn hm
  · exact WithTop.coe_le_coe.mpr hround
  · exact le_top
  · exact absurd (hround.trans_lt ‹_›) hn
  · exact le_rfl

theorem roundToDouble_small {n : ℕ} (h : n < 2 ^ 53) : roundToDouble n = ((n : ℚ) : WithTop ℚ) := by
  have hlt : (n : ℚ) < maxDouble := by
    calc (n : ℚ) < 2 ^ 53 := by exact_mod_cast h
      _ ≤ maxDouble := pow_le_pow_right₀ (by norm_num) (by norm_num)
  rw [roundToDouble, nearest_natCast h, if_pos hlt]

theorem readPlace_numeral (n : ℕ) : readPlace (.numeral n) = .numeral (roundToDouble n) := rfl

theorem readPlaces_eq (tag : Tag) : tag.readPlaces = tag.places.map readPlace := by
  have hidentifier (identifier : List Char) :
      readPlace (identifierOf digitsValue identifier : Identifier ℕ) = identifierPlace identifier := by
    unfold identifierPlace identifierOf
    split_ifs <;> rfl
  have hends : prereleasePlaces toNumber tag.prerelease = (prereleasePlaces digitsValue tag.prerelease).map readPlace := by
    cases tag.prerelease with
    | none => rfl
    | some text =>
      rw [prereleasePlaces, prereleasePlaces, List.map_map, List.map_map, List.map_map]
      exact List.map_congr_left fun identifier _ => (hidentifier identifier).symm
  rw [Tag.readPlaces, Tag.places, Tag.placesWith, Tag.placesWith, hends]
  rfl

/-- Reading a place changes its order with another only where it makes one double of two numerals. -/
theorem readPlace_apart {left right : Place ℕ} (h : left ≠ right) :
    orderSign (readPlace left) (readPlace right) = orderSign left right ∧ readPlace left ≠ readPlace right ∨
      ∃ n m, left = .numeral n ∧ right = .numeral m ∧ n ≠ m ∧ roundToDouble n = roundToDouble m := by
  have hlt {left right : Place ℕ} (hlt : left < right) : readPlace left < readPlace right ∨
      ∃ n m, left = .numeral n ∧ right = .numeral m ∧ n ≠ m ∧ roundToDouble n = roundToDouble m := by
    induction right using WithTop.recTopCoe with
    | top =>
      induction left using WithTop.recTopCoe with
      | top => exact absurd hlt (lt_irrefl _)
      | coe left => rcases left with n | text <;> exact .inl (WithTop.coe_lt_top _)
    | coe right =>
      induction left using WithTop.recTopCoe with
      | top => exact absurd hlt not_top_lt
      | coe left =>
        have hlt := WithTop.coe_lt_coe.mp hlt
        rcases left with n | text
        · rcases right with m | text'
          · have hnm : n < m := Sum.Lex.inl_lt_inl_iff.mp hlt
            rcases (roundToDouble_mono hnm.le).lt_or_eq with hread | hread
            · exact .inl (WithTop.coe_lt_coe.mpr (Sum.Lex.inl_lt_inl_iff.mpr hread))
            · exact .inr ⟨n, m, rfl, rfl, hnm.ne, hread⟩
          · exact .inl (WithTop.coe_lt_coe.mpr (Sum.Lex.inl_lt_inr _ _))
        · rcases right with m | text'
          · exact absurd hlt Sum.Lex.not_inr_lt_inl
          · exact .inl (WithTop.coe_lt_coe.mpr (Sum.Lex.inr_lt_inr_iff.mpr (Sum.Lex.inr_lt_inr_iff.mp hlt)))
  rcases lt_or_gt_of_ne h with hless | hmore
  · rcases hlt hless with hread | hsame
    · exact .inl ⟨(orderSign_of_lt hread).trans (orderSign_of_lt hless).symm, hread.ne⟩
    · exact .inr hsame
  · rcases hlt hmore with hread | ⟨m, n, hm, hn, hne, hsame⟩
    · exact .inl ⟨(orderSign_of_gt hread).trans (orderSign_of_gt hmore).symm, hread.ne'⟩
    · exact .inr ⟨n, m, hn, hm, hne.symm, hsame.symm⟩

section

variable {left right : Place ℕ} {lefts rights : List (Place ℕ)}

/-- No place that the comparison comes to has two numerals beyond the largest double. -/
def NeverInfinite (lefts rights : List (Place ℕ)) : Prop :=
  ∀ (i n m : ℕ), (lefts.map readPlace).take i = (rights.map readPlace).take i → lefts[i]? = some (.numeral n) →
    rights[i]? = some (.numeral m) → ¬ (roundToDouble n = ⊤ ∧ roundToDouble m = ⊤)

/-- Where two numerals are the first places written apart, they are two doubles, or what follows happens to be in their
order. -/
def ReadApart (lefts rights : List (Place ℕ)) : Prop :=
  ∀ (i n m : ℕ), lefts.take i = rights.take i → lefts[i]? = some (.numeral n) → rights[i]? = some (.numeral m) → n ≠ m →
    roundToDouble n ≠ roundToDouble m ∨
      orderSign ((lefts.drop (i + 1)).map readPlace) ((rights.drop (i + 1)).map readPlace) = orderSign n m

theorem exists_numeral {place : Place ℕ} {n : WithTop ℚ} (h : readPlace place = .numeral n) : ∃ n, place = .numeral n := by
  induction place using WithTop.recTopCoe with
  | top => exact absurd h WithTop.top_ne_coe
  | coe identifier =>
    rcases identifier with m | text
    · exact ⟨m, rfl⟩
    · exact absurd (WithTop.coe_inj.mp h) Sum.inr_ne_inl

theorem meetAtInfinity_iff : ∀ lefts rights : List (Place ℕ),
    meetAtInfinity (lefts.map readPlace) (rights.map readPlace) = false ↔ NeverInfinite lefts rights
  | [], rights => by
    refine iff_of_true rfl fun i n m _ hl => ?_
    rw [List.getElem?_nil] at hl
    cases hl
  | left :: lefts, [] => by
    refine iff_of_true rfl fun i n m _ _ hr => ?_
    rw [List.getElem?_nil] at hr
    cases hr
  | left :: lefts, right :: rights => by
    rw [List.map_cons, List.map_cons, meetAtInfinity, Bool.and_eq_false_iff, Bool.or_eq_false_iff, decide_eq_false_iff_not,
      decide_eq_false_iff_not, meetAtInfinity_iff lefts rights]
    constructor
    · rintro h (_ | i) n m htake hl hr
      · obtain rfl := Option.some.inj hl
        obtain rfl := Option.some.inj hr
        rintro ⟨hn, hm⟩
        rw [readPlace_numeral, readPlace_numeral, hn, hm] at h
        rcases h with h | h
        · exact h rfl
        · exact h.1 rfl
      · rw [List.map_cons, List.map_cons, List.take_succ_cons, List.take_succ_cons, List.cons.injEq] at htake
        rcases h with h | h
        · exact absurd htake.1 h
        · exact h.2 i n m htake.2 hl hr
    · intro h
      by_cases heq : readPlace left = readPlace right
      · refine .inr ⟨fun htop => ?_, fun i n m htake hl hr => ?_⟩
        · obtain ⟨n, rfl⟩ := exists_numeral htop
          obtain ⟨m, rfl⟩ := exists_numeral (heq ▸ htop)
          exact h 0 n m rfl rfl rfl ⟨numeral_inj.mp htop, numeral_inj.mp (heq.symm.trans htop)⟩
        · refine h (i + 1) n m ?_ hl hr
          rw [List.map_cons, List.map_cons, List.take_succ_cons, List.take_succ_cons, htake, heq]
      · exact .inl heq

theorem orderSign_read_iff : ∀ lefts rights : List (Place ℕ),
    orderSign (lefts.map readPlace) (rights.map readPlace) = orderSign lefts rights ↔ ReadApart lefts rights
  | [], [] => by
    refine iff_of_true (by rw [List.map_nil, orderSign_self, orderSign_self]) fun i n m _ hl => ?_
    rw [List.getElem?_nil] at hl
    cases hl
  | [], right :: rights => by
    refine iff_of_true ?_ fun i n m _ hl => ?_
    · rw [List.map_nil, List.map_cons, orderSign_of_lt (List.nil_lt_cons _ _), orderSign_of_lt (List.nil_lt_cons _ _)]
    · rw [List.getElem?_nil] at hl
      cases hl
  | left :: lefts, [] => by
    refine iff_of_true ?_ fun i n m _ _ hr => ?_
    · rw [List.map_nil, List.map_cons, orderSign_of_gt (List.nil_lt_cons _ _), orderSign_of_gt (List.nil_lt_cons _ _)]
    · rw [List.getElem?_nil] at hr
      cases hr
  | left :: lefts, right :: rights => by
    rw [List.map_cons, List.map_cons, orderSign_cons, orderSign_cons]
    by_cases heq : left = right
    · subst heq
      rw [orderSign_self, orderSign_self, Sign.orElse, Sign.orElse, orderSign_read_iff lefts rights]
      constructor
      · rintro h (_ | i) n m htake hl hr hne
        · obtain rfl := Option.some.inj hl
          exact absurd (numeral_inj.mp (Option.some.inj hr)) hne
        · rw [List.take_succ_cons, List.take_succ_cons, List.cons.injEq] at htake
          exact h i n m htake.2 hl hr hne
      · intro h i n m htake hl hr hne
        refine h (i + 1) n m ?_ hl hr hne
        rw [List.take_succ_cons, List.take_succ_cons, htake]
    · have hnonzero (sign : Sign) : (orderSign left right).orElse sign = orderSign left right := by
        rcases lt_or_gt_of_ne heq with hlt | hgt
        · rw [orderSign_of_lt hlt]
          rfl
        · rw [orderSign_of_gt hgt]
          rfl
      have hlater (i : ℕ) (htake : (left :: lefts).take (i + 1) = (right :: rights).take (i + 1)) : False := by
        rw [List.take_succ_cons, List.take_succ_cons, List.cons.injEq] at htake
        exact heq htake.1
      rw [hnonzero]
      rcases readPlace_apart heq with ⟨hread, hne⟩ | ⟨n, m, rfl, rfl, hne, hsame⟩
      · rw [hread, hnonzero]
        refine iff_of_true rfl ?_
        rintro (_ | i) n m htake hl hr -
        · obtain rfl := Option.some.inj hl
          obtain rfl := Option.some.inj hr
          exact .inl fun hsame => hne (congrArg Place.numeral hsame)
        · exact (hlater i htake).elim
      · rw [readPlace_numeral, readPlace_numeral, hsame, orderSign_self, orderSign_numeral]
        constructor
        · rintro h (_ | i) n' m' htake hl hr -
          · obtain rfl := numeral_inj.mp (Option.some.inj hl)
            obtain rfl := numeral_inj.mp (Option.some.inj hr)
            exact .inr h
          · exact (hlater i htake).elim
        · intro h
          rcases h 0 n m rfl rfl rfl hne with hdiffer | hrest
          · exact absurd hsame hdiffer
          · exact hrest

end

/-- The comparison of two tags is not misled by how their numerals are read: no two that it comes to are both beyond the
largest double, and where the tags are first written apart they are read apart. -/
structure ReadAsWritten (a b : Tag) : Prop where
  finite : NeverInfinite a.places b.places
  apart : ReadApart a.places b.places

theorem compareVersions_iff (a b : Tag) :
    compareVersions a.version b.version = orderSign a.precedence b.precedence ↔ ReadAsWritten a b := by
  have hprecedence : orderSign a.precedence b.precedence = orderSign a.places b.places := orderSign_places digitsValue a b
  rw [compareVersions_eq, hprecedence, readPlaces_eq, readPlaces_eq, readSign]
  cases hmeet : meetAtInfinity (a.places.map readPlace) (b.places.map readPlace) with
  | true =>
    rw [if_pos rfl]
    refine iff_of_false (fun h => orderSign_ne_notANumber _ _ h.symm) fun h => ?_
    rw [(meetAtInfinity_iff _ _).mpr h.finite] at hmeet
    cases hmeet
  | false =>
    rw [if_neg Bool.false_ne_true, orderSign_read_iff]
    exact ⟨fun h => ⟨(meetAtInfinity_iff _ _).mp hmeet, h⟩, fun h => h.apart⟩

/-- Whether a place is no numeral, or one below `2 ^ 53`. -/
def isSmallPlace : Place ℕ → Bool
  | ⊤ => true
  | (identifier : Identifier ℕ) =>
    match ofLex identifier with
    | .inl n => decide (n < 2 ^ 53)
    | .inr _ => true

/-- Every numeral of the tag is below `2 ^ 53`. -/
def Tag.isSmall (tag : Tag) : Bool := tag.places.all isSmallPlace

theorem lt_of_isSmall {tag : Tag} (h : tag.isSmall = true) {i n : ℕ} (hi : tag.places[i]? = some (.numeral n)) : n < 2 ^ 53 :=
  of_decide_eq_true (List.all_eq_true.mp h _ (List.mem_of_getElem? hi))

theorem readAsWritten_of_small {a b : Tag} (ha : a.isSmall = true) (hb : b.isSmall = true) : ReadAsWritten a b where
  finite := by
    rintro i n m - hl - ⟨hn, -⟩
    rw [roundToDouble_small (lt_of_isSmall ha hl)] at hn
    exact WithTop.coe_ne_top hn
  apart := by
    intro i n m _ hl hr hne
    rw [roundToDouble_small (lt_of_isSmall ha hl), roundToDouble_small (lt_of_isSmall hb hr)]
    exact .inl fun hsame => hne (Nat.cast_injective (WithTop.coe_inj.mp hsame))

/-! ## The order of the tags -/

/-- The laws of an order among tags of which each two are read as they are written. -/
structure Ordered (tags : List Tag) : Prop where
  reflexive : ∀ a ∈ tags, compareVersions a.version a.version = .zero
  antisymmetric : ∀ a ∈ tags, ∀ b ∈ tags, compareVersions b.version a.version = (compareVersions a.version b.version).opposite ∧
    (compareVersions a.version b.version = .zero ↔ a.precedence = b.precedence)
  transitive : ∀ a ∈ tags, ∀ b ∈ tags, ∀ c ∈ tags, compareVersions a.version b.version ≠ .positive →
    compareVersions b.version c.version ≠ .positive → compareVersions a.version c.version ≠ .positive
  total : ∀ a ∈ tags, ∀ b ∈ tags, compareVersions a.version b.version ≠ .notANumber ∧
    (compareVersions a.version b.version ≠ .positive ∨ compareVersions b.version a.version ≠ .positive)

theorem ordered_of_readAsWritten {tags : List Tag} (h : ∀ a ∈ tags, ∀ b ∈ tags, ReadAsWritten a b) : Ordered tags := by
  have hsign (a b : Tag) (ha : a ∈ tags) (hb : b ∈ tags) := (compareVersions_iff a b).mpr (h a ha b hb)
  refine ⟨fun a ha => ?_, fun a ha b hb => ?_, fun a ha b hb c hc hab hbc => ?_, fun a ha b hb => ?_⟩
  · rw [hsign a a ha ha, orderSign_self]
  · rw [hsign a b ha hb, hsign b a hb ha]
    exact ⟨orderSign_opposite _ _, orderSign_zero_iff⟩
  · rw [hsign a b ha hb, orderSign_ne_positive_iff] at hab
    rw [hsign b c hb hc, orderSign_ne_positive_iff] at hbc
    rw [hsign a c ha hc, orderSign_ne_positive_iff]
    exact hab.trans hbc
  · rw [hsign a b ha hb, hsign b a hb ha, orderSign_ne_positive_iff, orderSign_ne_positive_iff]
    exact ⟨orderSign_ne_notANumber _ _, le_total _ _⟩

section

variable {lines lines' : List (List Char)}

/-- Each two tags among the lines are read as they are written. -/
def LinesRead (lines : List (List Char)) : Prop :=
  ∀ x ∈ lines, ∀ y ∈ lines, ∀ a b, matchTag x = some a → matchTag y = some b → ReadAsWritten a b

theorem isSome_parseVersion {line : List Char} (h : (parseVersion line).isSome = true) : ∃ a, matchTag line = some a := by
  rw [parseVersion, Option.isSome_map] at h
  exact Option.isSome_iff_exists.mp h

/-- The sorted tags, by their precedence: sorted precedences. -/
theorem releaseTags_precedences (h : LinesRead lines) : (releaseTags lines).map precedenceOf =
    ((lines.filter fun line => (parseVersion line).isSome).map precedenceOf).mergeSort fun p q => decide (p ≤ q) := by
  refine List.map_mergeSort fun x hx y hy => ?_
  obtain ⟨hx, hsomex⟩ := List.mem_filter.mp hx
  obtain ⟨hy, hsomey⟩ := List.mem_filter.mp hy
  obtain ⟨a, ha⟩ := isSome_parseVersion hsomex
  obtain ⟨b, hb⟩ := isSome_parseVersion hsomey
  have hcompare : compareTags x y = orderSign a.precedence b.precedence := by
    rw [← (compareVersions_iff a b).mpr (h x hx y hy a b ha hb), compareTags, parseVersion, parseVersion, ha, hb]
    rfl
  have hpx : precedenceOf x = (a.precedence : WithBot (Precedence ℕ)) := by
    rw [precedenceOf, ha]
    rfl
  have hpy : precedenceOf y = (b.precedence : WithBot (Precedence ℕ)) := by
    rw [precedenceOf, hb]
    rfl
  rw [hcompare, hpx, hpy, Bool.eq_iff_iff, bne_iff_ne, decide_eq_true_iff, orderSign_ne_positive_iff, WithBot.coe_le_coe]

theorem releaseTags_sorted (h : LinesRead lines) : ((releaseTags lines).map precedenceOf).Pairwise (· ≤ ·) := by
  rw [releaseTags_precedences h]
  exact List.pairwise_mergeSort' _ _

theorem releaseTags_perm (hlines : lines.Perm lines') :
    ((releaseTags lines).map precedenceOf).Perm ((releaseTags lines').map precedenceOf) :=
  (((List.mergeSort_perm _ _).trans (hlines.filter _)).trans (List.mergeSort_perm _ _).symm).map _

theorem LinesRead.perm (h : LinesRead lines) (hlines : lines.Perm lines') : LinesRead lines' :=
  fun x hx y hy => h x (hlines.mem_iff.mpr hx) y (hlines.mem_iff.mpr hy)

theorem releaseTags_agree (h : LinesRead lines) (hlines : lines.Perm lines') :
    (releaseTags lines).map precedenceOf = (releaseTags lines').map precedenceOf :=
  (releaseTags_perm hlines).eq_of_pairwise' (releaseTags_sorted h) (releaseTags_sorted (h.perm hlines))

end

/-- **When `compareVersions` is the precedence, and what follows.** It is the precedence of two tags exactly when these are
read as they are written, for which it is enough that their numerals are below `2 ^ 53`; among tags of which each two are
read so it is an order up to equal precedence; and then the sorted tags and the latest one are, up to equal precedence, the
same in whatever order git lists the tags, and just the same where no two tags are of one precedence. -/
theorem compareVersions_sound (a b : Tag) (tags : List Tag) (lines lines' : List (List Char)) :
    (compareVersions a.version b.version = orderSign a.precedence b.precedence ↔ ReadAsWritten a b) ∧
    (a.isSmall = true → b.isSmall = true → ReadAsWritten a b) ∧
    ((∀ a ∈ tags, ∀ b ∈ tags, ReadAsWritten a b) → Ordered tags) ∧
    (LinesRead lines → lines.Perm lines' →
      ((releaseTags lines).map precedenceOf).Pairwise (· ≤ ·) ∧
      (releaseTags lines).map precedenceOf = (releaseTags lines').map precedenceOf ∧
      (latestRelease lines).map precedenceOf = (latestRelease lines').map precedenceOf ∧
      ((∀ x ∈ releaseTags lines, ∀ y ∈ releaseTags lines, precedenceOf x = precedenceOf y → x = y) →
        releaseTags lines = releaseTags lines')) := by
  refine ⟨compareVersions_iff a b, readAsWritten_of_small, ordered_of_readAsWritten, fun h hlines => ?_⟩
  have hagree := releaseTags_agree h hlines
  refine ⟨releaseTags_sorted h, hagree, ?_, fun hinj => ?_⟩
  · rw [latestRelease, latestRelease, ← List.getLast?_map, ← List.getLast?_map, hagree]
  · have hmem : ∀ x, x ∈ releaseTags lines' → x ∈ releaseTags lines := fun x hx =>
      ((List.mergeSort_perm _ _).trans ((hlines.filter _).trans (List.mergeSort_perm _ _).symm)).mem_iff.mpr hx
    have hlength : (releaseTags lines).length = (releaseTags lines').length := by
      simpa using congrArg List.length hagree
    refine List.ext_getElem hlength fun i hi hi' => ?_
    refine hinj _ (List.getElem_mem hi) _ (hmem _ (List.getElem_mem hi')) ?_
    have hplace := congrArg (fun l : List (WithBot (Precedence ℕ)) => l[i]?) hagree
    simpa [hi, hi'] using hplace

/-- Three tags, listed in two orders. -/
theorem compareVersions_sound_threeTags :
    (latestRelease ["v1.0.0-rc.1".toList, "1.0.0".toList, "v0.9.12".toList]).map precedenceOf =
      (latestRelease ["1.0.0".toList, "v0.9.12".toList, "v1.0.0-rc.1".toList]).map precedenceOf := by
  have hsmall : ∀ x ∈ ["v1.0.0-rc.1".toList, "1.0.0".toList, "v0.9.12".toList],
      (matchTag x).all (fun a => a.isSmall) = true := by
    decide +kernel
  have htag (x : List Char) (hx : x ∈ ["v1.0.0-rc.1".toList, "1.0.0".toList, "v0.9.12".toList]) (a : Tag)
      (ha : matchTag x = some a) : a.isSmall = true := by
    have hall := hsmall x hx
    rwa [ha] at hall
  let first : Tag := ⟨['1'], ['0'], ['0'], none⟩
  exact ((compareVersions_sound first first [] _ _).2.2.2 (fun x hx y hy a b ha hb =>
    (compareVersions_sound a b [] [] []).2.1 (htag x hx a ha) (htag y hy b hb)) (by decide)).2.2.1

theorem compareVersions_oneDouble : ∃ a b : Tag, matchTag "v1.0.9007199254740993".toList = some a ∧
    matchTag "v1.0.9007199254740992".toList = some b ∧ compareVersions a.version b.version = .zero ∧
      orderSign a.precedence b.precedence = .positive := by
  refine ⟨⟨['1'], ['0'], "9007199254740993".toList, none⟩, ⟨['1'], ['0'], "9007199254740992".toList, none⟩, ?_, ?_, ?_, ?_⟩
  · decide +kernel
  · decide +kernel
  · decide +kernel
  · decide +kernel

end SlugBase.Release
