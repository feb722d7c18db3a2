import Mathlib.Data.Nat.Digits.Lemmas
import Mathlib.Data.Countable.Basic
import Mathlib.Data.Fintype.EquivFin
import Mathlib.Logic.Equiv.List

/-!
# Cursors

The signed cursor of a list: the sort key of the last row of a page, readable by no other list.

* `Json`, `CursorRuntime`: the texts of JSON and of bytes, and the signatures of a server;
* `encodeKey`, `decodeKey`: the codec of a cursor for a purpose and a scope;
* **`decodeKey_encodeKey_eq`**: a cursor opens for its own list, and for no other;
* **`cursorRuntime_nonempty`**: what the codec rests on can be had.
-/

namespace SlugBase.Keyset

/-- The values that scopes and cursors are written of: a list of nulls, texts and lists of texts, and `{ key }` with a list
of nulls and texts. -/
inductive Json
  | list (parts : List (Option (String ⊕ List String)))
  | key (parts : List (Option String))

/-- A part that is a text. -/
def textPart (text : String) : Option (String ⊕ List String) := some (.inl text)

/-- The language and its library: `JSON`, base64url of a text, the bytes of a signature and their text, and the
signatures under the keys that the secret of the server gives for a purpose. -/
structure CursorRuntime where
  stringify : Json → String
  parse : String → Option Json
  base64url : String → String
  fromBase64url : String → String
  sign : String → String → List UInt8
  signatureText : List UInt8 → String
  signatureBytes : String → List UInt8
  parse_stringify : ∀ value, parse (stringify value) = some value
  fromBase64url_base64url : ∀ text, fromBase64url (base64url text) = text
  base64url_plain : ∀ text, '.' ∉ (base64url text).toList
  signatureBytes_text : ∀ bytes, signatureBytes (signatureText bytes) = bytes
  signatureText_plain : ∀ bytes, '.' ∉ (signatureText bytes).toList
  sign_injective : ∀ purpose text purpose' text', sign purpose text = sign purpose' text' → purpose = purpose' ∧ text = text'

variable (rt : CursorRuntime) (purpose : String)

/-- What a signature covers. -/
def signed (scope payload : String) : String := scope ++ "\n" ++ payload

/-- `seal`. -/
def sealBody (body : Json) (scope : String) : String :=
  let payload := rt.base64url (rt.stringify body)
  payload ++ "." ++ rt.signatureText (rt.sign purpose (signed scope payload))

/-- `open`. -/
def openCursor (cursor scope : String) : Option Json :=
  match cursor.toList.splitOn '.' with
  | [payload, signature] =>
    if rt.signatureBytes (String.ofList signature) = rt.sign purpose (signed scope (String.ofList payload)) then
      rt.parse (rt.fromBase64url (String.ofList payload))
    else none
  | _ => none

/-- `encodeKey`. -/
def encodeKey (key : List (Option String)) (scope : String) : String := sealBody rt purpose (.key key) scope

/-- `decodeKey`. -/
def decodeKey (cursor scope : String) : Option (List (Option String)) :=
  match openCursor rt purpose cursor scope with
  | some (.key parts) => some parts
  | _ => none

variable {rt purpose} {key : List (Option String)} {scope : String}

theorem splitOn_sealed {payload signature : String} (hpayload : '.' ∉ payload.toList) (hsignature : '.' ∉ signature.toList) :
    (payload ++ "." ++ signature).toList.splitOn '.' = [payload.toList, signature.toList] := by
  have htext : (payload ++ "." ++ signature).toList = payload.toList ++ '.' :: signature.toList := by
    rw [String.toList_append, String.toList_append, List.append_assoc]
    rfl
  have hlast := List.splitOn_eq_singleton hsignature
  rw [htext, List.splitOn_append_cons_self_of_not_mem hpayload, hlast]

theorem openCursor_sealBody {purpose' scope' : String} {body : Json} :
    openCursor rt purpose' (sealBody rt purpose body scope) scope' =
      if rt.sign purpose (signed scope (rt.base64url (rt.stringify body))) =
        rt.sign purpose' (signed scope' (rt.base64url (rt.stringify body))) then some body else none := by
  unfold openCursor sealBody
  dsimp only
  rw [splitOn_sealed (rt.base64url_plain _) (rt.signatureText_plain _)]
  dsimp only
  rw [String.ofList_toList, String.ofList_toList, rt.signatureBytes_text, rt.fromBase64url_base64url, rt.parse_stringify]

/-- **A cursor opens for its own list, and for no other.** -/
theorem decodeKey_encodeKey_eq {purpose' scope' : String} : decodeKey rt purpose' (encodeKey rt purpose key scope) scope' =
    if purpose = purpose' ∧ scope = scope' then some key else none := by
  rw [decodeKey, encodeKey, openCursor_sealBody]
  by_cases hsame : purpose = purpose' ∧ scope = scope'
  · obtain ⟨rfl, rfl⟩ := hsame
    rw [if_pos rfl, if_pos ⟨rfl, rfl⟩]
  · rw [if_neg hsame, if_neg]
    intro hsign
    obtain ⟨hpurpose, htext⟩ := rt.sign_injective _ _ _ _ hsign
    rw [signed, signed, String.append_left_inj, String.append_left_inj] at htext
    exact hsame ⟨hpurpose, htext⟩

theorem decodeKey_encodeKey : decodeKey rt purpose (encodeKey rt purpose key scope) scope = some key := by
  rw [decodeKey_encodeKey_eq, if_pos ⟨rfl, rfl⟩]

theorem stringify_injective {value value' : Json} (h : rt.stringify value = rt.stringify value') : value = value' := by
  have hparse := congrArg rt.parse h
  rw [rt.parse_stringify, rt.parse_stringify] at hparse
  exact Option.some.inj hparse

/-! ## Counts -/

/-- `String(count)`. -/
def countText (count : ℕ) : String := String.ofList (if count = 0 then ['0'] else (Nat.digits 10 count).reverse.map Nat.digitChar)

/-- The digit of a character. -/
def digitOf (c : Char) : ℕ := c.toNat - 48

/-- `Number(count)` of a text of up to 15 digits. -/
def readCount (text : String) : Option ℕ :=
  if 1 ≤ text.toList.length ∧ text.toList.length ≤ 15 ∧ text.toList.all Char.isDigit then
    some (text.toList.foldl (fun n c => 10 * n + digitOf c) 0)
  else none

theorem digitOf_digitChar : ∀ {d : ℕ}, d < 10 → (Nat.digitChar d).isDigit = true ∧ digitOf (Nat.digitChar d) = d := by
  decide

theorem foldl_digits : ∀ digits : List ℕ, (∀ d ∈ digits, d < 10) →
    (digits.reverse.map Nat.digitChar).foldl (fun n c => 10 * n + digitOf c) 0 = Nat.ofDigits 10 digits
  | [], _ => rfl
  | d :: digits, h => by
    rw [List.forall_mem_cons] at h
    rw [List.reverse_cons, List.map_append, List.foldl_append, foldl_digits digits h.2, Nat.ofDigits_cons]
    simp only [List.map_cons, List.map_nil, List.foldl_cons, List.foldl_nil, (digitOf_digitChar h.1).2]
    simp [Nat.add_comm]

/-- The text of a count is read back. -/
theorem readCount_countText {count : ℕ} (h : count < 10 ^ 15) : readCount (countText count) = some count := by
  by_cases hzero : count = 0
  · subst hzero
    rfl
  · have hdigits : ∀ d ∈ Nat.digits 10 count, d < 10 := fun d hd => Nat.digits_lt_base (by omega) hd
    have hlength : (Nat.digits 10 count).length ≤ 15 := (Nat.digits_length_le_iff (by omega) count).mpr h
    have hsome : 1 ≤ (Nat.digits 10 count).length := by
      rw [Nat.one_le_iff_ne_zero, Ne, List.length_eq_zero_iff, Nat.digits_eq_nil_iff_eq_zero]
      exact hzero
    have hall : ((Nat.digits 10 count).reverse.map Nat.digitChar).all Char.isDigit = true := by
      rw [List.all_map, List.all_reverse, List.all_eq_true]
      exact fun d hd => (digitOf_digitChar (hdigits d hd)).1
    rw [countText, if_neg hzero, readCount, String.toList_ofList, if_pos, foldl_digits _ hdigits, Nat.ofDigits_digits]
    rw [List.length_map, List.length_reverse]
    exact ⟨hsome, hlength, hall⟩

/-! ## Runtimes exist -/

/-- A text of one letter for a number. -/
def unary (n : ℕ) : String := String.ofList (List.replicate n 'a')

theorem length_unary (n : ℕ) : (unary n).toList.length = n := by
  rw [unary, String.toList_ofList, List.length_replicate]

theorem unary_plain (n : ℕ) : '.' ∉ (unary n).toList := by
  rw [unary, String.toList_ofList]
  exact fun h => absurd (List.eq_of_mem_replicate h) (by decide)

/-- The parts of a value. -/
def Json.parts : Json → List (Option (String ⊕ List String)) ⊕ List (Option String)
  | .list parts => .inl parts
  | .key parts => .inr parts

theorem exists_text (α : Type) [Countable α] [Inhabited α] :
    ∃ (text : α → String) (read : String → α), (∀ a, read (text a) = a) ∧ ∀ a, '.' ∉ (text a).toList := by
  obtain ⟨f, hf⟩ := exists_injective_nat α
  refine ⟨fun a => unary (f a), fun text => Function.invFun f text.toList.length, fun a => ?_, fun a => unary_plain _⟩
  dsimp only
  rw [length_unary, Function.leftInverse_invFun hf]

/-- **What the codec rests on can be had.** -/
theorem cursorRuntime_nonempty : Nonempty CursorRuntime := by
  have hchar : Countable Char :=
    Function.Injective.countable (f := Char.toNat) fun a b h => Char.toNat_inj.mp h
  have htext : Countable String :=
    Function.Injective.countable (f := String.toList) fun a b h => String.toList_inj.mp h
  have hbyte : Countable UInt8 :=
    Function.Injective.countable (f := UInt8.toNat) fun a b h => UInt8.toNat_inj.mp h
  have hjson : Countable Json :=
    Function.Injective.countable (f := Json.parts) fun a b h => by
      cases a <;> cases b <;> simp_all [Json.parts]
  have : Inhabited Json := ⟨.key []⟩
  obtain ⟨stringify, parse, hparse, -⟩ := exists_text Json
  obtain ⟨encode, decode, hdecode, hplain⟩ := exists_text String
  obtain ⟨signatureText, signatureBytes, hbytes, hsignature⟩ := exists_text (List UInt8)
  obtain ⟨f, hf⟩ := exists_injective_nat (String × String)
  exact ⟨{
    stringify := stringify
    parse := fun text => some (parse text)
    base64url := encode
    fromBase64url := decode
    sign := fun purpose text => List.replicate (f (purpose, text)) 0
    signatureText := signatureText
    signatureBytes := signatureBytes
    parse_stringify := fun value => congrArg some (hparse value)
    fromBase64url_base64url := hdecode
    base64url_plain := hplain
    signatureBytes_text := hbytes
    signatureText_plain := hsignature
    sign_injective := fun purpose text purpose' text' h => by
      have hlength := congrArg List.length h
      rw [List.length_replicate, List.length_replicate] at hlength
      exact Prod.mk.inj (hf hlength) }⟩

end SlugBase.Keyset
