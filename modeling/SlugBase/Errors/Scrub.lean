import SlugBase.Lib.JsString
import Mathlib.Algebra.Group.Nat.Defs
import Mathlib.Data.List.Infix

/-!
# Secrets in an error event

The step of the scrubber that replaces the value behind a name such as `password`, in plain text and in JSON that is held in
strings of JSON.

* `closes`, `bracketedRest`, `filteredValue`: where a value ends; `pairPrefix`: a name and its separator; `redactPairs`;
* `nested`: a text inside so many strings of JSON; **`filteredValue_written`**: the value ends exactly where its string, array
  or object does, whatever is in it;
* **`pairPrefix_append`**: a match in front of a quoted name ends in front of it;
* `Secret`: a value behind its name; **`redactPairs_secrets`**: nothing of the values is left.
-/

namespace SlugBase.Errors

open JavaScript

/-! ## Characters -/

def FILTERED : List Char := "[Filtered]".toList

/-- The characters that open a quoted value. -/
def isQuote (c : Char) : Bool := c == '"' || c == '\'' || c == '`'

/-- A letter or digit of ASCII. -/
def isLetterOrDigit (c : Char) : Bool :=
  (0x30 ≤ c.toNat && c.toNat ≤ 0x39) || (0x41 ≤ c.toNat && c.toNat ≤ 0x5A) || (0x61 ≤ c.toNat && c.toNat ≤ 0x7A)

/-- `[\w-]`. -/
def isNameCharacter (c : Char) : Bool := isLetterOrDigit c || c == '_' || c == '-'

/-- `\s`. -/
def isWhitespace (c : Char) : Bool := decide (c.toNat < 0x10000) && isSpace (UInt16.ofNat c.toNat)

/-- The characters of a value without quotes. -/
def isValueCharacter (c : Char) : Bool := !isWhitespace c && !("&,;\x22\x27\x7d])".toList.contains c)

/-- `REDACTED_KEY`: the names whose value is never sent. -/
def isRedactedKey (name : List Char) : Bool :=
  ["password", "passwd", "passphrase", "token", "secret", "code", "key", "authorization", "cookie", "credential"].any fun word =>
    (name.map Char.toLower).tails.any fun rest => word.toList.isPrefixOf rest

/-! ## The end of a value -/

/-- `closes`: whether a quote behind `run` backslashes closes what a quote behind `opening` of them opened. -/
def closes (run opening : ℕ) : Bool :=
  decide (opening ≤ run) && (run - opening) % (opening + 1) == 0 && (run - opening) / (opening + 1) % 2 == 0

/-- The quote that is open behind one that closes or opens: a string closes only on the kind that opened it. -/
def toggled (quote : Option Char) (c : Char) : Option Char :=
  match quote with
  | none => some c
  | some opened => if opened = c then none else some opened

/-- `bracketedEnd`, as the text behind the array or object. -/
def bracketedRest (opening : ℕ) : ℕ → Option Char → ℕ → List Char → List Char
  | _, _, _, [] => []
  | depth, quote, run, c :: rest =>
    if c = '\\' then bracketedRest opening depth quote (run + 1) rest
    else if isQuote c && closes run opening then bracketedRest opening depth (toggled quote c) 0 rest
    else if quote.isNone && (c == '[' || c == '{') then bracketedRest opening (depth + 1) quote 0 rest
    else if quote.isNone && (c == ']' || c == '}') then
      if depth = 1 then rest else bracketedRest opening (depth - 1) quote 0 rest
    else bracketedRest opening depth quote 0 rest

/-- The text behind the quote that closes a value. -/
def quotedRest (quote : Char) (opening : ℕ) : ℕ → List Char → Option (List Char)
  | _, [] => none
  | run, c :: rest =>
    if c = '\\' then quotedRest quote opening (run + 1) rest
    else if c = quote ∧ closes run opening = true then some rest
    else quotedRest quote opening 0 rest

/-- A value without quotes, and its credential when it is the name of a scheme. -/
def unquotedRest (text : List Char) : Option (List Char) :=
  let value := text.takeWhile isValueCharacter
  let rest := text.dropWhile isValueCharacter
  if value = [] then none
  else if value.map Char.toLower = "bearer".toList ∨ value.map Char.toLower = "basic".toList then
    let credential := rest.dropWhile isWhitespace
    if rest.takeWhile isWhitespace = [] ∨ credential.takeWhile isValueCharacter = [] then some rest
    else some (credential.dropWhile isValueCharacter)
  else some rest

/-- `filteredValue`: what replaces the value a text begins with, and the text behind it. -/
def filteredValue (text : List Char) (keyOpening : ℕ) : Option (List Char × List Char) :=
  if FILTERED.isPrefixOf text then some (FILTERED, text.drop FILTERED.length)
  else if text.head? = some '[' ∨ text.head? = some '{' then some (FILTERED, bracketedRest keyOpening 0 none 0 text)
  else
    let backslashes := text.takeWhile (· = '\\')
    match text.dropWhile (· = '\\') with
    | [] => (unquotedRest text).map fun rest => (FILTERED, rest)
    | quote :: rest =>
      if isQuote quote then
        let open' := if backslashes = [] then ['"'] else backslashes ++ [quote]
        match quotedRest quote backslashes.length 0 rest with
        | some rest => some (open' ++ FILTERED ++ open', rest)
        | none => some (open' ++ FILTERED, [])
      else (unquotedRest text).map fun rest => (FILTERED, rest)

/-! ## Text inside strings of JSON -/

/-- A digit of `\u00XX`. -/
def hexDigit (n : ℕ) : Char := if n < 10 then Char.ofNat (0x30 + n) else Char.ofNat (0x57 + n)

/-- A character in a string of JSON. -/
def escapeChar (c : Char) : List Char :=
  if c = '"' then ['\\', '"']
  else if c = '\\' then ['\\', '\\']
  else if c.toNat = 8 then ['\\', 'b']
  else if c.toNat = 12 then ['\\', 'f']
  else if c = '\n' then ['\\', 'n']
  else if c = '\r' then ['\\', 'r']
  else if c = '\t' then ['\\', 't']
  else if c.toNat < 0x20 then ['\\', 'u', '0', '0', hexDigit (c.toNat / 16), hexDigit (c.toNat % 16)]
  else [c]

/-- A string of JSON. -/
def quoted (text : List Char) : List Char := '"' :: (text.flatMap escapeChar ++ ['"'])

/-- A text that is inside so many strings of JSON. -/
def nested : ℕ → List Char → List Char
  | 0, text => text
  | depth + 1, text => nested depth (text.flatMap escapeChar)

theorem nested_append (d : ℕ) (a b : List Char) : nested d (a ++ b) = nested d a ++ nested d b := by
  induction d generalizing a b with
  | zero => rfl
  | succ d ih => rw [nested, nested, nested, List.flatMap_append, ih]

@[simp] theorem nested_nil (d : ℕ) : nested d [] = [] := by
  induction d with
  | zero => rfl
  | succ d ih => rw [nested, List.flatMap_nil, ih]

theorem nested_cons (d : ℕ) (c : Char) (text : List Char) : nested d (c :: text) = nested d [c] ++ nested d text :=
  nested_append d [c] text

/-- A character that is written as it is. -/
def Plain (c : Char) : Prop := escapeChar c = [c] ∧ c ≠ '\\' ∧ c ≠ '"'

theorem nested_plain {text : List Char} (h : ∀ c ∈ text, Plain c) (d : ℕ) : nested d text = text := by
  induction d with
  | zero => rfl
  | succ d ih =>
    have hself : text.flatMap escapeChar = text := by
      clear ih
      induction text with
      | nil => rfl
      | cons c text ih =>
        rw [List.flatMap_cons, (h c List.mem_cons_self).1, ih fun c hc => h c (List.mem_cons_of_mem _ hc)]
        rfl
    rw [nested, hself, ih]

theorem nested_backslash (d : ℕ) : nested d ['\\'] = List.replicate (2 ^ d) '\\' := by
  induction d with
  | zero => rfl
  | succ d ih =>
    have hescape : ['\\'].flatMap escapeChar = ['\\'] ++ ['\\'] := rfl
    rw [nested, hescape, nested_append, ih, List.replicate_append_replicate, Nat.pow_succ, Nat.mul_two]

theorem nested_quote (d : ℕ) : nested d ['"'] = List.replicate (2 ^ d - 1) '\\' ++ ['"'] := by
  induction d with
  | zero => rfl
  | succ d ih =>
    have hescape : ['"'].flatMap escapeChar = ['\\'] ++ ['"'] := rfl
    have hpos : 1 ≤ 2 ^ d := Nat.one_le_two_pow
    rw [nested, hescape, nested_append, ih, nested_backslash, ← List.append_assoc, List.replicate_append_replicate,
      Nat.pow_succ]
    congr 2
    omega

theorem plain_of_visible {c : Char} (hlow : 0x20 ≤ c.toNat) (hquote : c ≠ '"') (hbackslash : c ≠ '\\') : Plain c := by
  have hne {d : Char} (hd : d.toNat < 0x20) : c ≠ d := by
    rintro rfl
    omega
  refine ⟨?_, hbackslash, hquote⟩
  rw [escapeChar, if_neg hquote, if_neg hbackslash, if_neg (by omega), if_neg (by omega), if_neg (hne (by decide)),
    if_neg (hne (by decide)), if_neg (hne (by decide)), if_neg (by omega)]

theorem isLetterOrDigit_range {c : Char} (h : isLetterOrDigit c = true) : 0x30 ≤ c.toNat ∧ c.toNat ≤ 0x7A := by
  simp only [isLetterOrDigit, Bool.or_eq_true, Bool.and_eq_true, decide_eq_true_eq] at h
  omega

theorem Plain.of_isLetterOrDigit {c : Char} (h : isLetterOrDigit c = true) : Plain c := by
  refine plain_of_visible ?_ ?_ ?_
  · exact (by decide : 0x20 ≤ 0x30).trans (isLetterOrDigit_range h).1
  · rintro rfl
    exact absurd h (by decide)
  · rintro rfl
    exact absurd h (by decide)

theorem isLetterOrDigit_hexDigit {n : ℕ} (h : n < 16) : isLetterOrDigit (hexDigit n) = true := by
  have hall : ∀ n < 16, isLetterOrDigit (hexDigit n) = true := by decide
  exact hall n h

/-- What the characters of a string are written as. -/
theorem escapeChar_cases (c : Char) : (c = '"' ∧ escapeChar c = ['\\', '"']) ∨ (c = '\\' ∧ escapeChar c = ['\\', '\\']) ∨
    (∃ letters, escapeChar c = '\\' :: letters ∧ letters ≠ [] ∧ ∀ l ∈ letters, isLetterOrDigit l = true) ∨ Plain c := by
  by_cases h1 : c = '"'
  · exact .inl ⟨h1, by rw [escapeChar, if_pos h1]⟩
  by_cases h2 : c = '\\'
  · exact .inr (.inl ⟨h2, by rw [escapeChar, if_neg h1, if_pos h2]⟩)
  refine .inr (.inr ?_)
  by_cases hlow : 0x20 ≤ c.toNat
  · exact .inr (plain_of_visible hlow h1 h2)
  have hone {l : Char} (hl : isLetterOrDigit l = true) : ∀ k ∈ [l], isLetterOrDigit k = true := by
    rintro k hk
    obtain rfl := List.mem_singleton.mp hk
    exact hl
  refine .inl ?_
  rw [escapeChar, if_neg h1, if_neg h2]
  split_ifs with h8 h12 h10 h13 h9 hcontrol
  · exact ⟨_, rfl, List.cons_ne_nil _ _, hone (by decide)⟩
  · exact ⟨_, rfl, List.cons_ne_nil _ _, hone (by decide)⟩
  · exact ⟨_, rfl, List.cons_ne_nil _ _, hone (by decide)⟩
  · exact ⟨_, rfl, List.cons_ne_nil _ _, hone (by decide)⟩
  · exact ⟨_, rfl, List.cons_ne_nil _ _, hone (by decide)⟩
  · refine ⟨_, rfl, List.cons_ne_nil _ _, ?_⟩
    intro l hl
    simp only [List.mem_cons, List.not_mem_nil, or_false] at hl
    rcases hl with rfl | rfl | rfl | rfl | rfl
    · rfl
    · rfl
    · rfl
    · exact isLetterOrDigit_hexDigit (by omega)
    · exact isLetterOrDigit_hexDigit (by omega)
  · omega

/-- A character of a string inside so many strings: a quote behind an odd number of escaped backslashes, escaped
backslashes, an escape, or itself. -/
theorem nested_escapeChar (d : ℕ) (c : Char) :
    nested d (escapeChar c) = List.replicate (2 ^ (d + 1) - 1) '\\' ++ ['"'] ∨
      nested d (escapeChar c) = List.replicate (2 ^ (d + 1)) '\\' ∨
      ∃ before letters, nested d (escapeChar c) = List.replicate before '\\' ++ letters ∧ letters ≠ [] ∧
        ∀ l ∈ letters, Plain l := by
  have hpos : 1 ≤ 2 ^ d := Nat.one_le_two_pow
  rcases escapeChar_cases c with ⟨-, hescape⟩ | ⟨-, hescape⟩ | ⟨letters, hescape, hne, hletters⟩ | hplain
  · refine .inl ?_
    rw [hescape, nested_cons, nested_backslash, nested_quote, ← List.append_assoc, List.replicate_append_replicate, Nat.pow_succ]
    congr 2
    omega
  · refine .inr (.inl ?_)
    rw [hescape, nested_cons, nested_backslash, List.replicate_append_replicate, Nat.pow_succ, Nat.mul_two]
  · have hplain : ∀ l ∈ letters, Plain l := fun l hl => .of_isLetterOrDigit (hletters l hl)
    refine .inr (.inr ⟨2 ^ d, letters, ?_, hne, hplain⟩)
    rw [hescape, nested_cons, nested_backslash, nested_plain hplain]
  · refine .inr (.inr ⟨0, [c], ?_, List.cons_ne_nil _ _, fun l hl => List.mem_singleton.mp hl ▸ hplain⟩)
    rw [hplain.1, nested_plain fun l hl => List.mem_singleton.mp hl ▸ hplain]
    rfl

/-! ## Quotes -/

section

variable {d : ℕ}

theorem closes_outer (k : ℕ) : closes (k * 2 ^ (d + 1) + (2 ^ d - 1)) (2 ^ d - 1) = true := by
  have hpos : 1 ≤ 2 ^ d := Nat.one_le_two_pow
  have hone : 2 ^ d - 1 + 1 = 2 ^ d := Nat.sub_add_cancel hpos
  have hextra : k * 2 ^ (d + 1) = k * 2 * 2 ^ d := by rw [Nat.pow_succ, Nat.mul_comm (2 ^ d), Nat.mul_assoc]
  rw [closes, Nat.add_sub_cancel, hone, hextra, Nat.mul_mod_left, Nat.mul_div_cancel _ hpos, Nat.mul_mod_left]
  simp

theorem closes_inner (k : ℕ) : closes (k * 2 ^ (d + 1) + (2 ^ (d + 1) - 1)) (2 ^ d - 1) = false := by
  have hpos : 1 ≤ 2 ^ d := Nat.one_le_two_pow
  have hone : 2 ^ d - 1 + 1 = 2 ^ d := Nat.sub_add_cancel hpos
  have hextra : k * 2 ^ (d + 1) + (2 ^ (d + 1) - 1) - (2 ^ d - 1) = (k * 2 + 1) * 2 ^ d := by
    have hdouble : 2 ^ (d + 1) = 2 * 2 ^ d := by rw [Nat.pow_succ, Nat.mul_comm]
    rw [Nat.add_mul, Nat.mul_assoc, ← hdouble]
    omega
  have hodd : (k * 2 + 1) % 2 = 1 := by omega
  rw [closes, hextra, hone, Nat.mul_mod_left, Nat.mul_div_cancel _ hpos, hodd]
  simp

/-! ## The end of a string -/

theorem quotedRest_backslashes (opening run n : ℕ) (rest : List Char) :
    quotedRest '"' opening run (List.replicate n '\\' ++ rest) = quotedRest '"' opening (run + n) rest := by
  induction n generalizing run with
  | zero => rfl
  | succ n ih => rw [List.replicate_succ, List.cons_append, quotedRest, if_pos rfl, ih, Nat.add_right_comm, Nat.add_assoc]

theorem quotedRest_plain {letters : List Char} (hne : letters ≠ []) (h : ∀ l ∈ letters, Plain l) (opening run : ℕ)
    (rest : List Char) : quotedRest '"' opening run (letters ++ rest) = quotedRest '"' opening 0 rest := by
  induction letters generalizing run with
  | nil => exact absurd rfl hne
  | cons l letters ih =>
    obtain ⟨-, hbackslash, hquote⟩ := h l List.mem_cons_self
    rw [List.cons_append, quotedRest, if_neg hbackslash, if_neg fun hclose => hquote hclose.1]
    cases letters with
    | nil => rfl
    | cons m letters => exact ih (List.cons_ne_nil _ _) (fun l hl => h l (List.mem_cons_of_mem _ hl)) 0

/-- **A quoted value ends at the quote that ends its string**, whatever the string holds. -/
theorem quotedRest_contents (text rest : List Char) (k : ℕ) :
    quotedRest '"' (2 ^ d - 1) (k * 2 ^ (d + 1))
      (nested d (text.flatMap escapeChar) ++ (nested d ['"'] ++ rest)) = some rest := by
  induction text generalizing k with
  | nil =>
    rw [List.flatMap_nil, nested_nil, List.nil_append, nested_quote, List.append_assoc, quotedRest_backslashes,
      List.singleton_append, quotedRest, if_neg (by decide), if_pos ⟨rfl, closes_outer k⟩]
  | cons c text ih =>
    rw [List.flatMap_cons, nested_append, List.append_assoc]
    rcases nested_escapeChar d c with hquote | hbackslash | ⟨before, letters, hescape, hne, hplain⟩
    · -- the run in front of the quote is odd in the measure of this depth
      rw [hquote, List.append_assoc, quotedRest_backslashes, List.singleton_append, quotedRest, if_neg (by decide),
        if_neg fun hclose => by rw [closes_inner] at hclose; exact nomatch hclose.2]
      have hnext := ih 0
      rwa [Nat.zero_mul] at hnext
    · rw [hbackslash, quotedRest_backslashes, ← Nat.succ_mul]
      exact ih (k + 1)
    · rw [hescape, List.append_assoc, quotedRest_backslashes, quotedRest_plain hne hplain]
      have hnext := ih 0
      rwa [Nat.zero_mul] at hnext

/-! ## The end of an array or object -/

theorem bracketedRest_backslashes (opening depth : ℕ) (quote : Option Char) (run n : ℕ) (rest : List Char) :
    bracketedRest opening depth quote run (List.replicate n '\\' ++ rest) = bracketedRest opening depth quote (run + n) rest := by
  induction n generalizing run with
  | zero => rfl
  | succ n ih => rw [List.replicate_succ, List.cons_append, bracketedRest, if_pos rfl, ih, Nat.add_right_comm, Nat.add_assoc]

/-- In a string a character other than its quote only ends a run of backslashes. -/
theorem bracketedRest_plain {letters : List Char} (hne : letters ≠ []) (h : ∀ l ∈ letters, Plain l) (opening depth run : ℕ)
    (rest : List Char) :
    bracketedRest opening depth (some '"') run (letters ++ rest) = bracketedRest opening depth (some '"') 0 rest := by
  induction letters generalizing run with
  | nil => exact absurd rfl hne
  | cons l letters ih =>
    obtain ⟨-, hbackslash, hquote⟩ := h l List.mem_cons_self
    have hstep : bracketedRest opening depth (some '"') run (l :: letters ++ rest) =
        bracketedRest opening depth (some '"') 0 (letters ++ rest) := by
      rw [List.cons_append, bracketedRest, if_neg hbackslash, toggled, if_neg (Ne.symm hquote)]
      simp
    rw [hstep]
    cases letters with
    | nil => rfl
    | cons m letters => exact ih (List.cons_ne_nil _ _) (fun l hl => h l (List.mem_cons_of_mem _ hl)) 0

theorem bracketedRest_contents (text rest : List Char) (depth k : ℕ) :
    bracketedRest (2 ^ d - 1) depth (some '"') (k * 2 ^ (d + 1))
      (nested d (text.flatMap escapeChar) ++ (nested d ['"'] ++ rest)) = bracketedRest (2 ^ d - 1) depth none 0 rest := by
  have hquoteChar : isQuote '"' = true := rfl
  induction text generalizing k with
  | nil =>
    rw [List.flatMap_nil, nested_nil, List.nil_append, nested_quote, List.append_assoc, bracketedRest_backslashes,
      List.singleton_append, bracketedRest, if_neg (by decide), closes_outer, hquoteChar, Bool.and_self, if_pos rfl]
    rfl
  | cons c text ih =>
    rw [List.flatMap_cons, nested_append, List.append_assoc]
    have hnext := ih 0
    rw [Nat.zero_mul] at hnext
    rcases nested_escapeChar d c with hquote | hbackslash | ⟨before, letters, hescape, hne, hplain⟩
    · rw [hquote, List.append_assoc, bracketedRest_backslashes, List.singleton_append, bracketedRest, if_neg (by decide),
        closes_inner, Bool.and_false, if_neg (by decide), if_neg (by decide), if_neg (by decide), hnext]
    · rw [hbackslash, bracketedRest_backslashes, ← Nat.succ_mul]
      exact ih (k + 1)
    · rw [hescape, List.append_assoc, bracketedRest_backslashes, bracketedRest_plain hne hplain, hnext]

theorem bracketedRest_quoted (text rest : List Char) (depth : ℕ) :
    bracketedRest (2 ^ d - 1) depth none 0 (nested d (quoted text) ++ rest) = bracketedRest (2 ^ d - 1) depth none 0 rest := by
  have hquoteChar : isQuote '"' = true := rfl
  have hclose : closes (2 ^ d - 1) (2 ^ d - 1) = true := by
    have h := closes_outer (d := d) 0
    rwa [Nat.zero_mul, Nat.zero_add] at h
  rw [quoted, nested_cons, nested_append, nested_quote, List.append_assoc, List.append_assoc, bracketedRest_backslashes,
    List.singleton_append, bracketedRest, if_neg (by decide), Nat.zero_add, hclose, hquoteChar, Bool.and_self, if_pos rfl,
    List.append_assoc, ← nested_quote]
  have hcontents := bracketedRest_contents (d := d) text rest depth 0
  rwa [Nat.zero_mul] at hcontents

/-! ## Values -/

/-- A character that neither opens nor ends anything. -/
def isQuiet (c : Char) : Bool := c != '\\' && !isQuote c && !("[]\x7b\x7d".toList.contains c)

/-- The two kinds of brackets. -/
inductive Bracket
  | square
  | curly

def Bracket.opening : Bracket → Char
  | .square => '['
  | .curly => '\x7b'

def Bracket.closing : Bracket → Char
  | .square => ']'
  | .curly => '\x7d'

/-- What stands between brackets: strings, further brackets, and characters that are neither. -/
inductive Contents : List Char → Prop
  | empty : Contents []
  | quiet (c : Char) {rest : List Char} : isQuiet c = true → Contents rest → Contents (c :: rest)
  | string (text : List Char) {rest : List Char} : Contents rest → Contents (quoted text ++ rest)
  | bracketed (kind : Bracket) {inner rest : List Char} :
    Contents inner → Contents rest → Contents (kind.opening :: (inner ++ kind.closing :: rest))

theorem Bracket.plain_opening (kind : Bracket) : Plain kind.opening := by
  cases kind
  · exact plain_of_visible (by decide) (by decide) (by decide)
  · exact plain_of_visible (by decide) (by decide) (by decide)

theorem Bracket.plain_closing (kind : Bracket) : Plain kind.closing := by
  cases kind
  · exact plain_of_visible (by decide) (by decide) (by decide)
  · exact plain_of_visible (by decide) (by decide) (by decide)

theorem isQuiet_of_isLetterOrDigit {c : Char} (h : isLetterOrDigit c = true) : isQuiet c = true := by
  by_contra hnot
  rw [isQuiet, isQuote] at hnot
  simp only [Bool.not_eq_true, Bool.and_eq_false_iff, Bool.not_eq_false', bne_eq_false_iff_eq, Bool.or_eq_true, beq_iff_eq,
    List.contains_iff_mem] at hnot
  rcases hnot with (rfl | (rfl | rfl) | rfl) | hbracket
  · exact absurd h (by decide)
  · exact absurd h (by decide)
  · exact absurd h (by decide)
  · exact absurd h (by decide)
  · have hall : ("[]\x7b\x7d".toList.all fun l => !isLetterOrDigit l) = true := by decide
    have hnone := List.all_eq_true.mp hall c hbracket
    rw [h] at hnone
    exact absurd hnone (by decide)

theorem bracketedRest_quiet {letters : List Char} (hne : letters ≠ []) (h : ∀ l ∈ letters, isQuiet l = true)
    (opening depth run : ℕ) (rest : List Char) :
    bracketedRest opening depth none run (letters ++ rest) = bracketedRest opening depth none 0 rest := by
  induction letters generalizing run with
  | nil => exact absurd rfl hne
  | cons l letters ih =>
    have hl := h l List.mem_cons_self
    simp only [isQuiet, Bool.and_eq_true, bne_iff_ne, ne_eq, Bool.not_eq_true', List.contains_eq_mem,
      decide_eq_false_iff_not] at hl
    obtain ⟨⟨hbackslash, hquote⟩, hbracket⟩ := hl
    have hne {c : Char} (hc : c ∈ "[]\x7b\x7d".toList) : l ≠ c := fun heq => hbracket (heq ▸ hc)
    have hstep : bracketedRest opening depth none run (l :: letters ++ rest) =
        bracketedRest opening depth none 0 (letters ++ rest) := by
      rw [List.cons_append, bracketedRest, if_neg hbackslash, hquote, Bool.false_and, if_neg (by decide), if_neg, if_neg]
      · simp [hne (c := ']') (by decide), hne (c := '\x7d') (by decide)]
      · simp [hne (c := '[') (by decide), hne (c := '\x7b') (by decide)]
    rw [hstep]
    cases letters with
    | nil => rfl
    | cons m letters => exact ih (List.cons_ne_nil _ _) (fun l hl => h l (List.mem_cons_of_mem _ hl)) 0

theorem bracketedRest_nested_quiet {c : Char} (h : isQuiet c = true) (depth : ℕ) (rest : List Char) :
    bracketedRest (2 ^ d - 1) depth none 0 (nested d [c] ++ rest) = bracketedRest (2 ^ d - 1) depth none 0 rest := by
  have hone : bracketedRest (2 ^ d - 1) depth none 0 ([c] ++ rest) = bracketedRest (2 ^ d - 1) depth none 0 rest :=
    bracketedRest_quiet (List.cons_ne_nil _ _) (fun l hl => List.mem_singleton.mp hl ▸ h) _ _ _ _
  cases d with
  | zero => exact hone
  | succ d =>
    rw [nested, List.flatMap_singleton]
    rcases escapeChar_cases c with ⟨rfl, -⟩ | ⟨rfl, -⟩ | ⟨letters, hescape, hne, hletters⟩ | hplain
    · exact absurd h (by decide)
    · exact absurd h (by decide)
    · rw [hescape, nested_cons, nested_backslash, nested_plain fun l hl => .of_isLetterOrDigit (hletters l hl), List.append_assoc,
        bracketedRest_backslashes]
      exact bracketedRest_quiet hne (fun l hl => isQuiet_of_isLetterOrDigit (hletters l hl)) _ _ _ _
    · rw [hplain.1, nested_plain fun l hl => List.mem_singleton.mp hl ▸ hplain]
      exact hone

theorem bracketedRest_opening (kind : Bracket) (opening depth run : ℕ) (rest : List Char) :
    bracketedRest opening depth none run (kind.opening :: rest) = bracketedRest opening (depth + 1) none 0 rest := by
  cases kind
  · rfl
  · rfl

theorem bracketedRest_closing (kind : Bracket) (opening depth run : ℕ) (rest : List Char) :
    bracketedRest opening depth none run (kind.closing :: rest) =
      if depth = 1 then rest else bracketedRest opening (depth - 1) none 0 rest := by
  cases kind
  · rfl
  · rfl

theorem nested_bracketed (kind : Bracket) (inner rest : List Char) :
    nested d (kind.opening :: (inner ++ kind.closing :: rest)) =
      kind.opening :: (nested d inner ++ kind.closing :: nested d rest) := by
  rw [nested_cons, nested_plain fun l hl => List.mem_singleton.mp hl ▸ kind.plain_opening, nested_append, nested_cons d kind.closing,
    nested_plain fun l hl => List.mem_singleton.mp hl ▸ kind.plain_closing]
  rfl

theorem Contents.passed {text : List Char} (h : Contents text) {depth : ℕ} (hdepth : 0 < depth) (rest : List Char) :
    bracketedRest (2 ^ d - 1) depth none 0 (nested d text ++ rest) = bracketedRest (2 ^ d - 1) depth none 0 rest := by
  induction h generalizing depth rest with
  | empty => rw [nested_nil, List.nil_append]
  | quiet c hc _ ih => rw [nested_cons, List.append_assoc, bracketedRest_nested_quiet hc, ih hdepth]
  | string text _ ih => rw [nested_append, List.append_assoc, bracketedRest_quoted, ih hdepth]
  | bracketed kind _ _ ihInner ihRest =>
    rw [nested_bracketed, List.cons_append, bracketedRest_opening, List.append_assoc, ihInner (by omega : 0 < depth + 1),
      List.cons_append, bracketedRest_closing, if_neg (by omega), Nat.add_sub_cancel, ihRest hdepth]

/-- **An array or object ends at the bracket that ends it**, whatever strings and brackets it holds. -/
theorem bracketedRest_bracketed (kind : Bracket) {inner : List Char} (h : Contents inner) (rest : List Char) :
    bracketedRest (2 ^ d - 1) 0 none 0 (nested d (kind.opening :: (inner ++ [kind.closing])) ++ rest) = rest := by
  rw [nested_bracketed, nested_nil, List.cons_append, bracketedRest_opening, List.append_assoc, h.passed Nat.one_pos,
    List.singleton_append, bracketedRest_closing, if_pos rfl]

/-- A value that a program writes as JSON: a string, or an array or object. -/
inductive WrittenValue
  | string (text : List Char)
  | bracketed (kind : Bracket) (inner : List Char) (contents : Contents inner)

def WrittenValue.text : WrittenValue → List Char
  | .string text => quoted text
  | .bracketed kind inner _ => kind.opening :: (inner ++ [kind.closing])

/-- What stands in the place of a value. -/
def WrittenValue.filtered : WrittenValue → List Char
  | .string _ => quoted FILTERED
  | .bracketed _ _ _ => FILTERED

theorem plain_filtered : ∀ c ∈ FILTERED, Plain c := by
  have hall : (FILTERED.all fun c => decide (0x20 ≤ c.toNat) && c != '"' && c != '\\') = true := by decide
  intro c hc
  have hvisible := List.all_eq_true.mp hall c hc
  simp only [Bool.and_eq_true, decide_eq_true_eq, bne_iff_ne, ne_eq] at hvisible
  exact plain_of_visible hvisible.1.1 hvisible.1.2 hvisible.2

theorem nested_quoted (text : List Char) :
    nested d (quoted text) = List.replicate (2 ^ d - 1) '\\' ++ '"' :: (nested d (text.flatMap escapeChar) ++ nested d ['"']) := by
  have hparts : nested d (quoted text) = nested d ['"'] ++ (nested d (text.flatMap escapeChar) ++ nested d ['"']) := by
    rw [quoted, nested_cons, nested_append]
  rw [hparts]
  conv_lhs =>
    lhs
    rw [nested_quote]
  rw [List.append_assoc]
  rfl

theorem nested_filtered : nested d (quoted FILTERED) = nested d ['"'] ++ FILTERED ++ nested d ['"'] := by
  have hself : FILTERED.flatMap escapeChar = FILTERED := nested_plain plain_filtered 1
  rw [quoted, nested_cons, nested_append, hself, nested_plain plain_filtered, List.append_assoc]

theorem takeWhile_backslashes (n : ℕ) (rest : List Char) :
    (List.replicate n '\\' ++ '"' :: rest).takeWhile (· = '\\') = List.replicate n '\\' := by
  induction n with
  | zero => rfl
  | succ n ih => rw [List.replicate_succ, List.cons_append, List.takeWhile_cons_of_pos (by decide), ih]

theorem dropWhile_backslashes (n : ℕ) (rest : List Char) :
    (List.replicate n '\\' ++ '"' :: rest).dropWhile (· = '\\') = '"' :: rest := by
  induction n with
  | zero => rfl
  | succ n ih => rw [List.replicate_succ, List.cons_append, List.dropWhile_cons_of_pos (by decide), ih]

theorem head_backslashes (n : ℕ) (rest : List Char) : ∃ c tail, List.replicate n '\\' ++ '"' :: rest = c :: tail ∧
    (c = '\\' ∨ c = '"') := by
  cases n with
  | zero => exact ⟨'"', rest, rfl, .inr rfl⟩
  | succ n => exact ⟨'\\', _, rfl, .inl rfl⟩

/-- A string is replaced as a whole. -/
theorem filteredValue_quoted (text rest : List Char) (keyOpening : ℕ) :
    filteredValue (nested d (quoted text) ++ rest) keyOpening = some (nested d (quoted FILTERED), rest) := by
  have hcontents := quotedRest_contents (d := d) text rest 0
  rw [Nat.zero_mul, ← List.append_assoc] at hcontents
  have hopen : (if List.replicate (2 ^ d - 1) '\\' = [] then ['"'] else List.replicate (2 ^ d - 1) '\\' ++ ['"']) =
      nested d ['"'] := by
    rw [nested_quote]
    split_ifs with hnone
    · rw [hnone]
      rfl
    · rfl
  rw [nested_quoted, List.append_assoc, List.cons_append]
  generalize nested d (text.flatMap escapeChar) ++ nested d ['"'] ++ rest = behind at hcontents ⊢
  obtain ⟨c, tail, hhead, hc⟩ := head_backslashes (2 ^ d - 1) behind
  have hfiltered : FILTERED.isPrefixOf (List.replicate (2 ^ d - 1) '\\' ++ '"' :: behind) = false := by
    rw [hhead]
    rcases hc with rfl | rfl
    · rfl
    · rfl
  have hbracket : ¬((List.replicate (2 ^ d - 1) '\\' ++ '"' :: behind).head? = some '[' ∨
      (List.replicate (2 ^ d - 1) '\\' ++ '"' :: behind).head? = some '\x7b') := by
    rw [hhead]
    rcases hc with rfl | rfl
    · simp
    · simp
  rw [filteredValue, hfiltered, if_neg (by decide), if_neg hbracket, takeWhile_backslashes, dropWhile_backslashes]
  dsimp only
  rw [if_pos (by decide), List.length_replicate, hcontents, hopen, nested_filtered]

/-- An array or object is replaced as a whole. -/
theorem filteredValue_bracketed (kind : Bracket) {inner : List Char} (h : Contents inner) (rest : List Char) :
    filteredValue (nested d (kind.opening :: (inner ++ [kind.closing])) ++ rest) (2 ^ d - 1) = some (FILTERED, rest) := by
  have hend := bracketedRest_bracketed (d := d) kind h rest
  rw [filteredValue]
  split_ifs with hfiltered hbracket
  · -- what is filtered already ends at its own bracket
    obtain ⟨behind, hbehind⟩ := List.isPrefixOf_iff_prefix.mp hfiltered
    rw [← hbehind] at hend ⊢
    have hself : bracketedRest (2 ^ d - 1) 0 none 0 (FILTERED ++ behind) = behind := rfl
    rw [List.drop_left, ← hself, hend]
  · rw [hend]
  · refine absurd ?_ hbracket
    rw [nested_bracketed]
    cases kind
    · exact .inl rfl
    · exact .inr rfl

theorem filteredValue_written (value : WrittenValue) (rest : List Char) :
    filteredValue (nested d value.text ++ rest) (2 ^ d - 1) = some (nested d value.filtered, rest) := by
  cases value with
  | string text => exact filteredValue_quoted text rest _
  | bracketed kind inner h => rw [WrittenValue.filtered, nested_plain plain_filtered]; exact filteredValue_bracketed kind h rest

end

/-! ## Names and separators -/

/-- A match of `PAIR_PREFIX`: the name, the backslashes in front of the quote behind it, and the text behind the match. -/
structure PairPrefix where
  name : List Char
  opening : ℕ
  rest : List Char

/-- `\\{0,8}`: how many backslashes are taken. -/
def openingOf (text : List Char) : ℕ := ((text.takeWhile (· = '\\')).take 8).length

/-- The text behind a quote, if there is one. -/
def behindQuote : List Char → List Char
  | [] => []
  | c :: rest => if isQuote c then rest else c :: rest

/-- `\s*[=:]\s*`. -/
def behindSeparator (text : List Char) : Option (List Char) :=
  match text.dropWhile isWhitespace with
  | [] => none
  | c :: rest => if c = '=' ∨ c = ':' then some (rest.dropWhile isWhitespace) else none

/-- `PAIR_PREFIX` at the beginning of a text. What follows a name is not of a name, so no part of the match can be shorter. -/
def pairPrefix (text : List Char) : Option PairPrefix :=
  let name := (text.takeWhile isNameCharacter).take 64
  let behindName := text.drop name.length
  if name = [] then none
  else
    (behindSeparator (behindQuote (behindName.drop (openingOf behindName)))).map fun rest => ⟨name, openingOf behindName, rest⟩

/-- What replaces the value behind a name that is not sent, and the text behind it. -/
def PairPrefix.value (p : PairPrefix) : Option (List Char × List Char) :=
  if isRedactedKey p.name then filteredValue p.rest p.opening else none

theorem behindQuote_length (text : List Char) : (behindQuote text).length ≤ text.length := by
  cases text with
  | nil => exact Nat.le_refl _
  | cons c rest =>
    rw [behindQuote]
    split_ifs
    · exact Nat.le_succ _
    · exact Nat.le_refl _

theorem dropWhile_length (f : Char → Bool) (text : List Char) : (text.dropWhile f).length ≤ text.length :=
  (List.dropWhile_sublist f).length_le

theorem behindSeparator_length {text rest : List Char} (h : behindSeparator text = some rest) : rest.length < text.length := by
  have hdrop := dropWhile_length isWhitespace text
  unfold behindSeparator at h
  split at h
  · cases h
  · next c behind heq =>
    split_ifs at h
    obtain rfl := Option.some.inj h
    rw [heq, List.length_cons] at hdrop
    exact (dropWhile_length isWhitespace behind).trans_lt hdrop

theorem pairPrefix_length {text : List Char} {p : PairPrefix} (h : pairPrefix text = some p) : p.rest.length < text.length := by
  unfold pairPrefix at h
  dsimp only at h
  split_ifs at h
  obtain ⟨rest, hrest, rfl⟩ := Option.map_eq_some_iff.mp h
  refine (behindSeparator_length hrest).trans_le ((behindQuote_length _).trans ?_)
  rw [List.length_drop, List.length_drop]
  omega

theorem behindQuote_suffix (text : List Char) : behindQuote text <:+ text := by
  cases text with
  | nil => exact List.suffix_refl _
  | cons c rest =>
    rw [behindQuote]
    split_ifs
    · exact List.suffix_cons c rest
    · exact List.suffix_refl _

theorem behindSeparator_suffix {text rest : List Char} (h : behindSeparator text = some rest) : rest <:+ text := by
  unfold behindSeparator at h
  split at h
  · cases h
  · next c behind heq =>
    split_ifs at h
    obtain rfl := Option.some.inj h
    refine (List.dropWhile_suffix _).trans ((List.suffix_cons c behind).trans ?_)
    rw [← heq]
    exact List.dropWhile_suffix _

theorem pairPrefix_suffix {text : List Char} {p : PairPrefix} (h : pairPrefix text = some p) : p.rest <:+ text := by
  unfold pairPrefix at h
  dsimp only at h
  split_ifs at h
  obtain ⟨rest, hrest, rfl⟩ := Option.map_eq_some_iff.mp h
  exact (behindSeparator_suffix hrest).trans ((behindQuote_suffix _).trans ((List.drop_suffix _ _).trans (List.drop_suffix _ _)))

theorem bracketedRest_length (opening depth run : ℕ) (quote : Option Char) (text : List Char) :
    (bracketedRest opening depth quote run text).length ≤ text.length := by
  induction text generalizing depth quote run with
  | nil => exact Nat.le_refl _
  | cons c text ih =>
    rw [bracketedRest]
    split_ifs
    all_goals first
      | exact (ih _ _ _).trans (Nat.le_succ _)
      | exact Nat.le_succ _

theorem quotedRest_length {quote : Char} {opening run : ℕ} {text rest : List Char}
    (h : quotedRest quote opening run text = some rest) : rest.length ≤ text.length := by
  induction text generalizing run with
  | nil => cases h
  | cons c text ih =>
    rw [quotedRest] at h
    split_ifs at h
    · exact (ih h).trans (Nat.le_succ _)
    · obtain rfl := Option.some.inj h
      exact Nat.le_succ _
    · exact (ih h).trans (Nat.le_succ _)

theorem unquotedRest_length {text rest : List Char} (h : unquotedRest text = some rest) : rest.length ≤ text.length := by
  unfold unquotedRest at h
  dsimp only at h
  have hvalue := dropWhile_length isValueCharacter text
  split_ifs at h
  · obtain rfl := Option.some.inj h
    exact hvalue
  · obtain rfl := Option.some.inj h
    exact ((dropWhile_length _ _).trans (dropWhile_length _ _)).trans hvalue
  · obtain rfl := Option.some.inj h
    exact hvalue

theorem filteredValue_length {text replacement rest : List Char} {keyOpening : ℕ}
    (h : filteredValue text keyOpening = some (replacement, rest)) : rest.length ≤ text.length := by
  have hunquoted (h : (unquotedRest text).map (fun rest => (FILTERED, rest)) = some (replacement, rest)) :
      rest.length ≤ text.length := by
    obtain ⟨behind, hbehind, heq⟩ := Option.map_eq_some_iff.mp h
    obtain ⟨-, rfl⟩ := Prod.mk.inj heq
    exact unquotedRest_length hbehind
  rw [filteredValue] at h
  split_ifs at h
  · obtain ⟨-, rfl⟩ := Prod.mk.inj (Option.some.inj h)
    rw [List.length_drop]
    exact Nat.sub_le _ _
  · obtain ⟨-, rfl⟩ := Prod.mk.inj (Option.some.inj h)
    exact bracketedRest_length _ _ _ _ _
  dsimp only at h
  split at h
  · exact hunquoted h
  · next c behind heq =>
    have hdrop := dropWhile_length (· = '\\') text
    rw [heq, List.length_cons] at hdrop
    split_ifs at h
    all_goals first
      | exact hunquoted h
      | skip
    all_goals
      split at h
      · next hclose =>
        obtain ⟨-, rfl⟩ := Prod.mk.inj (Option.some.inj h)
        exact (quotedRest_length hclose).trans ((Nat.le_succ _).trans hdrop)
      · obtain ⟨-, rfl⟩ := Prod.mk.inj (Option.some.inj h)
        exact Nat.zero_le _

theorem PairPrefix.value_length {p : PairPrefix} {replacement rest : List Char} (h : p.value = some (replacement, rest)) :
    rest.length ≤ p.rest.length := by
  rw [PairPrefix.value] at h
  split_ifs at h
  exact filteredValue_length h

/-! ## All pairs of a text -/

/-- `redactPairs`. -/
def redactPairs : List Char → List Char
  | [] => []
  | c :: text =>
    match _hpair : pairPrefix (c :: text) with
    | none => c :: redactPairs text
    | some p =>
      let found := (c :: text).take ((c :: text).length - p.rest.length)
      match _hvalue : p.value with
      | none => found ++ redactPairs p.rest
      | some (replacement, rest) => found ++ replacement ++ redactPairs rest
termination_by text => text.length
decreasing_by
  · exact Nat.lt_succ_self _
  · exact pairPrefix_length _hpair
  · exact (PairPrefix.value_length _hvalue).trans_lt (pairPrefix_length _hpair)

theorem redactPairs_none {c : Char} {text : List Char} (h : pairPrefix (c :: text) = none) :
    redactPairs (c :: text) = c :: redactPairs text := by
  rw [redactPairs]
  split
  · rfl
  · next p hpair =>
    rw [h] at hpair
    cases hpair

/-- A name that may be sent is passed over with its separator. -/
theorem redactPairs_sent {found rest : List Char} {p : PairPrefix} (h : pairPrefix (found ++ rest) = some p) (hrest : p.rest = rest)
    (hvalue : p.value = none) : redactPairs (found ++ rest) = found ++ redactPairs rest := by
  have hlength := pairPrefix_length h
  generalize htext : found ++ rest = text at h hlength ⊢
  cases text with
  | nil => exact absurd hlength (Nat.not_lt_zero _)
  | cons c text =>
    rw [redactPairs]
    split
    · next hnone =>
      rw [h] at hnone
      cases hnone
    · next q hq =>
      obtain rfl := Option.some.inj (h.symm.trans hq)
      dsimp only
      split
      · rw [← htext, hrest, List.length_append, Nat.add_sub_cancel, List.take_left]
      · next replacement behind hsome =>
        rw [hvalue] at hsome
        cases hsome

theorem redactPairs_redacted {found behind replacement rest : List Char} {p : PairPrefix}
    (h : pairPrefix (found ++ behind) = some p) (hrest : p.rest = behind) (hvalue : p.value = some (replacement, rest)) :
    redactPairs (found ++ behind) = found ++ replacement ++ redactPairs rest := by
  have hlength := pairPrefix_length h
  generalize htext : found ++ behind = text at h hlength ⊢
  cases text with
  | nil => exact absurd hlength (Nat.not_lt_zero _)
  | cons c text =>
    rw [redactPairs]
    split
    · next hnone =>
      rw [h] at hnone
      cases hnone
    · next q hq =>
      obtain rfl := Option.some.inj (h.symm.trans hq)
      dsimp only
      split
      · next hnone =>
        rw [hvalue] at hnone
        cases hnone
      · next replacement' rest' hsome =>
        obtain ⟨rfl, rfl⟩ := Prod.mk.inj (Option.some.inj (hvalue.symm.trans hsome))
        rw [← htext, hrest, List.length_append, Nat.add_sub_cancel, List.take_left]

/-! ## In front of a quoted name -/

/-- A quote with a name behind it. -/
def OpensName (text : List Char) : Prop :=
  ∃ n c rest, text = List.replicate n '\\' ++ '"' :: c :: rest ∧ isNameCharacter c = true

theorem isNameCharacter_cases {c : Char} (h : isNameCharacter c = true) :
    isWhitespace c = false ∧ c ≠ '=' ∧ c ≠ ':' ∧ c ≠ '\\' ∧ isQuote c = false := by
  have hlow : c.toNat < 128 := by
    simp only [isNameCharacter, Bool.or_eq_true, beq_iff_eq] at h
    rcases h with (h | rfl) | rfl
    · exact (isLetterOrDigit_range h).2.trans_lt (by decide)
    · decide
    · decide
  have hall : ∀ n < 128, isNameCharacter (Char.ofNat n) = true → isWhitespace (Char.ofNat n) = false ∧ Char.ofNat n ≠ '=' ∧
      Char.ofNat n ≠ ':' ∧ Char.ofNat n ≠ '\\' ∧ isQuote (Char.ofNat n) = false := by
    decide +kernel
  have hself : Char.ofNat c.toNat = c := Char.ofNat_toNat c
  exact hself ▸ hall c.toNat hlow (by rwa [hself])

theorem OpensName.head {text : List Char} (h : OpensName text) : ∃ c rest, text = c :: rest ∧ isNameCharacter c = false ∧
    isWhitespace c = false ∧ ¬(c = '=' ∨ c = ':') := by
  obtain ⟨n, c, rest, rfl, -⟩ := h
  obtain ⟨d, tail, htail, rfl | rfl⟩ := head_backslashes n (c :: rest)
  · exact ⟨'\\', tail, htail, by decide⟩
  · exact ⟨'"', tail, htail, by decide⟩

theorem takeWhile_append_of_head {f : Char → Bool} {c : Char} {rest : List Char} (h : f c = false) (text : List Char) :
    (text ++ c :: rest).takeWhile f = text.takeWhile f := by
  induction text with
  | nil => exact List.takeWhile_cons_of_neg (by rw [h]; decide)
  | cons d text ih =>
    rw [List.cons_append, List.takeWhile_cons, List.takeWhile_cons]
    cases f d with
    | false => rfl
    | true => rw [if_pos rfl, if_pos rfl, ih]

theorem dropWhile_append_of_head {f : Char → Bool} {c : Char} {rest : List Char} (h : f c = false) (text : List Char) :
    (text ++ c :: rest).dropWhile f = text.dropWhile f ++ c :: rest := by
  induction text with
  | nil => exact List.dropWhile_cons_of_neg (by rw [h]; decide)
  | cons d text ih =>
    rw [List.cons_append, List.dropWhile_cons, List.dropWhile_cons]
    cases f d with
    | false => rfl
    | true => rw [if_pos rfl, if_pos rfl, ih]

/-- A separator in front of a quoted name is not behind it. -/
theorem behindSeparator_append {text tail : List Char} (h : OpensName tail) :
    behindSeparator (text ++ tail) = (behindSeparator text).map (· ++ tail) := by
  obtain ⟨c, rest, rfl, -, hspace, hseparator⟩ := h.head
  unfold behindSeparator
  rw [dropWhile_append_of_head hspace]
  cases text.dropWhile isWhitespace with
  | nil => exact if_neg hseparator
  | cons d behind =>
    rw [List.cons_append]
    dsimp only
    split_ifs
    · rw [dropWhile_append_of_head hspace]
      rfl
    · rfl

theorem behindSeparator_none {c : Char} {rest : List Char} (hspace : isWhitespace c = false) (h : ¬(c = '=' ∨ c = ':')) :
    behindSeparator (c :: rest) = none := by
  rw [behindSeparator, List.dropWhile_cons_of_neg (by rw [hspace]; decide)]
  exact if_neg h

theorem openingOf_backslashes (n : ℕ) (rest : List Char) : openingOf (List.replicate n '\\' ++ '"' :: rest) = min 8 n := by
  rw [openingOf, takeWhile_backslashes, List.length_take, List.length_replicate]

/-- A match in front of a quoted name ends in front of it. -/
theorem behindName_append (text : List Char) {tail : List Char} (h : OpensName tail) :
    ((behindSeparator (behindQuote ((text ++ tail).drop (openingOf (text ++ tail))))).map fun rest => (openingOf (text ++ tail), rest)) =
      (behindSeparator (behindQuote (text.drop (openingOf text)))).map fun rest => (openingOf text, rest ++ tail) := by
  by_cases hall : ∀ c ∈ text, c = '\\'
  · -- only backslashes: the quote of the name is the quote of the match, and no separator follows it
    obtain ⟨n, c, rest, rfl, hc⟩ := h
    obtain ⟨hspace, hequals, hcolon, -, -⟩ := isNameCharacter_cases hc
    have htext : text = List.replicate text.length '\\' := List.eq_replicate_of_mem hall
    have hbackslashes (k : ℕ) (rest : List Char) (hk : 0 < k ∨ rest = []) :
        behindSeparator (behindQuote (List.replicate k '\\' ++ rest)) = none := by
      cases k with
      | zero =>
        obtain hzero | rfl := hk
        · exact absurd hzero (Nat.lt_irrefl 0)
        · rfl
      | succ k =>
        rw [List.replicate_succ, List.cons_append, behindQuote, if_neg (by decide)]
        exact behindSeparator_none (by decide) (by decide)
    have hright : behindSeparator (behindQuote (text.drop (openingOf text))) = none := by
      rw [htext, List.drop_replicate]
      have hnone := hbackslashes (text.length - openingOf (List.replicate text.length '\\')) [] (.inr rfl)
      rwa [List.append_nil] at hnone
    rw [hright, Option.map_none, Option.map_eq_none_iff, htext, ← List.append_assoc, List.replicate_append_replicate,
      openingOf_backslashes]
    by_cases hmany : text.length + n ≤ 8
    · rw [Nat.min_eq_right hmany, List.drop_left' (List.length_replicate), behindQuote, if_pos (by decide)]
      exact behindSeparator_none hspace (by rintro (h | h); exacts [hequals h, hcolon h])
    · rw [List.drop_append_of_le_length (by rw [List.length_replicate]; omega), List.drop_replicate]
      exact hbackslashes _ _ (.inl (by omega))
  · push Not at hall
    obtain ⟨c, hc, hne⟩ := hall
    obtain ⟨before, behind, rfl⟩ := List.append_of_mem hc
    have htake : ((before ++ c :: behind) ++ tail).takeWhile (· = '\\') = (before ++ c :: behind).takeWhile (· = '\\') := by
      rw [List.append_assoc, List.cons_append, takeWhile_append_of_head (decide_eq_false hne),
        takeWhile_append_of_head (decide_eq_false hne)]
    have hopening : openingOf ((before ++ c :: behind) ++ tail) = openingOf (before ++ c :: behind) := by
      rw [openingOf, htake, openingOf]
    have hlt : openingOf (before ++ c :: behind) < (before ++ c :: behind).length := by
      have hlength : (before.takeWhile (· = '\\')).length ≤ before.length := (List.takeWhile_sublist _).length_le
      rw [openingOf, takeWhile_append_of_head (decide_eq_false hne), List.length_take, List.length_append, List.length_cons]
      omega
    rw [hopening, List.drop_append_of_le_length hlt.le]
    generalize hdrop : (before ++ c :: behind).drop (openingOf (before ++ c :: behind)) = left
    cases left with
    | nil => exact absurd (List.drop_eq_nil_iff.mp hdrop) (by omega)
    | cons e left =>
      have hquote : behindQuote (e :: left ++ tail) = behindQuote (e :: left) ++ tail := by
        rw [List.cons_append, behindQuote, behindQuote]
        split_ifs
        · rfl
        · rfl
      rw [hquote, behindSeparator_append h, Option.map_map]
      rfl

/-- What is matched in front of a quoted name is matched without it. -/
theorem pairPrefix_append (text : List Char) {tail : List Char} (h : OpensName tail) :
    pairPrefix (text ++ tail) = (pairPrefix text).map fun p => { p with rest := p.rest ++ tail } := by
  obtain ⟨c, rest, htail, hname, -⟩ := h.head
  have htake : (text ++ tail).takeWhile isNameCharacter = text.takeWhile isNameCharacter := by
    rw [htail, takeWhile_append_of_head hname]
  have hlength : ((text.takeWhile isNameCharacter).take 64).length ≤ text.length :=
    ((List.take_sublist _ _).trans (List.takeWhile_sublist _)).length_le
  unfold pairPrefix
  rw [htake]
  dsimp only
  split_ifs
  · rfl
  rw [List.drop_append_of_le_length hlength]
  have hbehind := behindName_append (text.drop ((text.takeWhile isNameCharacter).take 64).length) h
  have hmatch := congrArg (Option.map fun q : ℕ × List Char =>
    (⟨(text.takeWhile isNameCharacter).take 64, q.1, q.2⟩ : PairPrefix)) hbehind
  rw [Option.map_map, Option.map_map] at hmatch
  rw [Option.map_map]
  exact hmatch

/-- No pair of the text has a name that is not sent. -/
def isHarmless (text : List Char) : Bool := text.tails.all fun rest => (pairPrefix rest).all fun p => !isRedactedKey p.name

theorem isHarmless_of_suffix {text rest : List Char} (h : isHarmless text = true) (hrest : rest <:+ text) :
    isHarmless rest = true := by
  rw [isHarmless, List.all_eq_true] at h ⊢
  exact fun more hmore => h more ((List.mem_tails _ _).mpr (((List.mem_tails _ _).mp hmore).trans hrest))

/-- A text without such a pair is left as it is in front of a quoted name. -/
theorem redactPairs_harmless {text tail : List Char} (h : isHarmless text = true) (htail : OpensName tail) :
    redactPairs (text ++ tail) = text ++ redactPairs tail := by
  induction hlength : text.length using Nat.strong_induction_on generalizing text with
  | _ n ih =>
    cases text with
    | nil => rfl
    | cons c text =>
      have hpair := pairPrefix_append (c :: text) htail
      cases hfirst : pairPrefix (c :: text) with
      | none =>
        rw [hfirst, Option.map_none, List.cons_append] at hpair
        have hrest := ih text.length (by rw [← hlength]; exact Nat.lt_succ_self _)
          (isHarmless_of_suffix h (List.suffix_cons c text)) rfl
        rw [List.cons_append, redactPairs_none hpair, hrest]
        rfl
      | some p =>
        rw [hfirst, Option.map_some] at hpair
        obtain ⟨found, hfound⟩ := pairPrefix_suffix hfirst
        have hlt : p.rest.length < n := by
          rw [← hlength]
          exact pairPrefix_length hfirst
        have hrest := ih p.rest.length hlt (isHarmless_of_suffix h ⟨found, hfound⟩) rfl
        have hsent : isRedactedKey p.name = false := by
          rw [isHarmless, List.all_eq_true] at h
          have hself := h (c :: text) ((List.mem_tails _ _).mpr (List.suffix_refl _))
          rw [hfirst] at hself
          simpa using hself
        rw [← hfound, List.append_assoc] at hpair ⊢
        rw [redactPairs_sent hpair rfl (by rw [PairPrefix.value, hsent]; rfl), hrest, List.append_assoc]

/-! ## A value behind its name -/

theorem redactPairs_skip {before : List Char} (h : ∀ c ∈ before, isNameCharacter c = false) (text : List Char) :
    redactPairs (before ++ text) = before ++ redactPairs text := by
  induction before with
  | nil => rfl
  | cons c before ih =>
    have hnone : pairPrefix (c :: (before ++ text)) = none := by
      have hname : ((c :: (before ++ text)).takeWhile isNameCharacter).take 64 = [] := by
        rw [List.takeWhile_cons_of_neg (by rw [h c List.mem_cons_self]; decide), List.take_nil]
      rw [pairPrefix, hname]
      exact if_pos rfl
    rw [List.cons_append, redactPairs_none hnone, ih fun d hd => h d (List.mem_cons_of_mem c hd)]
    rfl

/-- A secret in a text: a name in quotes that is not sent, its value, and the text in front of it, all inside so many strings
of JSON. -/
structure Secret where
  before : List Char
  harmless : isHarmless before = true
  depth : ℕ
  shallow : depth ≤ 3
  name : List Char
  named : name ≠ [] ∧ name.length ≤ 64 ∧ ∀ c ∈ name, isNameCharacter c = true
  redacted : isRedactedKey name = true
  gap : List Char
  blank : ∀ c ∈ gap, c = ' '
  value : WrittenValue

/-- The name with its quotes and the separator. -/
def Secret.key (s : Secret) : List Char := nested s.depth (quoted s.name) ++ ':' :: s.gap

def Secret.text (s : Secret) : List Char := s.before ++ s.key ++ nested s.depth s.value.text

/-- The text without the value. -/
def Secret.withoutValue (s : Secret) : List Char := s.before ++ s.key ++ nested s.depth s.value.filtered

theorem Secret.plain_name (s : Secret) : ∀ c ∈ s.name, Plain c := by
  intro c hc
  have hname := s.named.2.2 c hc
  simp only [isNameCharacter, Bool.or_eq_true, beq_iff_eq] at hname
  rcases hname with (hletter | rfl) | rfl
  · exact .of_isLetterOrDigit hletter
  · exact plain_of_visible (by decide) (by decide) (by decide)
  · exact plain_of_visible (by decide) (by decide) (by decide)

theorem Secret.key_eq (s : Secret) : s.key = (List.replicate (2 ^ s.depth - 1) '\\' ++ ['"']) ++
    (s.name ++ (List.replicate (2 ^ s.depth - 1) '\\' ++ '"' :: ':' :: s.gap)) := by
  have hself : s.name.flatMap escapeChar = s.name := nested_plain s.plain_name 1
  rw [Secret.key, nested_quoted, hself, nested_plain s.plain_name, nested_quote]
  simp only [List.append_assoc, List.cons_append, List.nil_append]

theorem Secret.opensName (s : Secret) (text : List Char) : OpensName (s.key ++ text) := by
  obtain ⟨c, name, hname⟩ := List.exists_cons_of_ne_nil s.named.1
  refine ⟨2 ^ s.depth - 1, c, name ++ (List.replicate (2 ^ s.depth - 1) '\\' ++ '"' :: ':' :: s.gap) ++ text, ?_,
    s.named.2.2 c (hname ▸ List.mem_cons_self)⟩
  rw [s.key_eq, hname]
  simp only [List.append_assoc, List.cons_append, List.nil_append]

/-- What a value begins with. -/
theorem WrittenValue.head (value : WrittenValue) (d : ℕ) (rest : List Char) : ∃ c tail, nested d value.text ++ rest = c :: tail ∧
    isWhitespace c = false := by
  cases value with
  | string text =>
    obtain ⟨c, tail, hhead, hc⟩ := head_backslashes (2 ^ d - 1) (nested d (text.flatMap escapeChar) ++ nested d ['"'] ++ rest)
    refine ⟨c, tail, ?_, ?_⟩
    · rw [WrittenValue.text, nested_quoted, List.append_assoc, List.cons_append, hhead]
    · rcases hc with rfl | rfl
      · decide
      · decide
  | bracketed kind inner _ =>
    refine ⟨kind.opening, _, by rw [WrittenValue.text, nested_bracketed]; rfl, ?_⟩
    cases kind
    · decide
    · decide

/-- The match at the name of a secret. -/
theorem Secret.pairPrefix_name (s : Secret) (rest : List Char) :
    pairPrefix ((s.name ++ (List.replicate (2 ^ s.depth - 1) '\\' ++ '"' :: ':' :: s.gap)) ++ (nested s.depth s.value.text ++ rest)) =
      some ⟨s.name, 2 ^ s.depth - 1, nested s.depth s.value.text ++ rest⟩ := by
  obtain ⟨c, tail, hhead, hspace⟩ := s.value.head s.depth rest
  have hcount : 2 ^ s.depth - 1 ≤ 8 := by
    have hpow : 2 ^ s.depth ≤ 2 ^ 3 := Nat.pow_le_pow_right (by decide) s.shallow
    omega
  have hbehind : (s.name ++ (List.replicate (2 ^ s.depth - 1) '\\' ++ '"' :: ':' :: s.gap)) ++ (c :: tail) =
      s.name ++ (List.replicate (2 ^ s.depth - 1) '\\' ++ '"' :: ':' :: (s.gap ++ c :: tail)) := by
    simp only [List.append_assoc, List.cons_append]
  have htake : (s.name ++ (List.replicate (2 ^ s.depth - 1) '\\' ++ '"' :: ':' :: (s.gap ++ c :: tail))).takeWhile
      isNameCharacter = s.name := by
    obtain ⟨d, more, hmore, hd⟩ := head_backslashes (2 ^ s.depth - 1) (':' :: (s.gap ++ c :: tail))
    rw [hmore, takeWhile_append_of_head (by rcases hd with rfl | rfl <;> decide)]
    exact List.takeWhile_eq_self_iff.mpr s.named.2.2
  have hgap : (s.gap ++ c :: tail).dropWhile isWhitespace = c :: tail := by
    rw [dropWhile_append_of_head hspace, List.dropWhile_eq_nil_iff.mpr fun d hd => s.blank d hd ▸ by decide]
    rfl
  have hseparator : behindSeparator (':' :: (s.gap ++ c :: tail)) = some (c :: tail) := by
    rw [behindSeparator, List.dropWhile_cons_of_neg (by decide)]
    dsimp only
    rw [if_pos (.inr rfl), hgap]
  rw [hhead, hbehind, pairPrefix, htake, List.take_of_length_le s.named.2.1]
  rw [if_neg s.named.1, List.drop_left, openingOf_backslashes, Nat.min_eq_right hcount, List.drop_left' List.length_replicate,
    behindQuote, if_pos (by decide), hseparator]
  rfl

/-- **A secret is replaced as a whole**, and nothing else of its text. -/
theorem redactPairs_secret (s : Secret) (rest : List Char) : redactPairs (s.text ++ rest) = s.withoutValue ++ redactPairs rest := by
  have hvalue : PairPrefix.value ⟨s.name, 2 ^ s.depth - 1, nested s.depth s.value.text ++ rest⟩ =
      some (nested s.depth s.value.filtered, rest) := by
    rw [PairPrefix.value, s.redacted, if_pos rfl, filteredValue_written]
  have hquote : ∀ c ∈ List.replicate (2 ^ s.depth - 1) '\\' ++ ['"'], isNameCharacter c = false := by
    intro c hc
    rcases List.mem_append.mp hc with hc | hc
    · obtain rfl := (List.mem_replicate.mp hc).2
      decide
    · obtain rfl := List.mem_singleton.mp hc
      decide
  have hkey : redactPairs (s.key ++ (nested s.depth s.value.text ++ rest)) =
      s.key ++ nested s.depth s.value.filtered ++ redactPairs rest := by
    rw [s.key_eq, List.append_assoc, redactPairs_skip hquote, redactPairs_redacted (s.pairPrefix_name rest) rfl hvalue]
    simp only [List.append_assoc]
  rw [Secret.text, List.append_assoc, List.append_assoc, redactPairs_harmless s.harmless (s.opensName _), hkey,
    Secret.withoutValue]
  simp only [List.append_assoc]

/-- **Nothing of a secret value is left**: however many secrets a text holds, each inside its own number of strings of JSON,
what is sent depends on their values only in whether they are strings. -/
theorem redactPairs_secrets (secrets : List Secret) (rest : List Char) :
    redactPairs (secrets.flatMap Secret.text ++ rest) = secrets.flatMap Secret.withoutValue ++ redactPairs rest := by
  induction secrets with
  | nil => rfl
  | cons s secrets ih =>
    rw [List.flatMap_cons, List.append_assoc, redactPairs_secret, ih, List.flatMap_cons, List.append_assoc]

/-- A password with a quote in it, in a string of JSON. -/
def loggedPassword : Secret where
  before := "sent id=4 ".toList
  harmless := by decide
  depth := 1
  shallow := by decide
  name := "password".toList
  named := ⟨by decide, by decide, List.all_eq_true.mp (by decide)⟩
  redacted := by decide
  gap := []
  blank := nofun
  value := .string "a\"b".toList

example : loggedPassword.text = "sent id=4 \\\"password\\\":\\\"a\\\\\\\"b\\\"".toList := by decide

end SlugBase.Errors
