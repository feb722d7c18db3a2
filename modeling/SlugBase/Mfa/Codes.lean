import SlugBase.Lib.PercentEncode
import SlugBase.Lib.Regroup
import SlugBase.Mfa.Replayed
import Mathlib.Data.Nat.SuccPred
import Mathlib.Order.SuccPred.Archimedean

/-!
# The codes of the second factor

The secret that an authenticator app is given, the codes it shows, and the time step a typed code is taken for.

* `base32Encode`: the text key of a secret; **`base32Decode_iff`**: a text is read as the bytes it is the key of, and as
  nothing when it is the key of none;
* `otpauthUri`: the key URI; **`readKeyUri_otpauthUri`**: an authenticator app reads from it what it was made of;
* `totpCode`, `verifyTotp`, over the HMAC of a key and a message; **`verifyTotp_spec`**: the answer is the latest step
  around the instant that the typed code is of; **`verifyTotp_window`**: when a code is accepted;
* **`code_not_accepted_again`**: in a run of the service a code that was accepted is not accepted again.
-/

namespace SlugBase.Mfa

open JavaScript UrlStandard Digits Transition

/-! ## The text key -/

/-- `BASE32_ALPHABET`. -/
def base32Alphabet : JsString := js "ABCDEFGHIJKLMNOPQRSTUVWXYZ234567"

/-- `BASE32_ALPHABET.charAt`, of a number of five bits. -/
def base32Char (digit : ℕ) : UInt16 := base32Alphabet.getD digit 0

/-- `base32Encode`. -/
def base32Encode (bytes : List UInt8) : JsString :=
  (regroup 8 5 base32Char (bytes.map UInt8.toNat)).padded 5 base32Char

/-- The number of a character of the alphabet. -/
def base32Value (u : UInt16) : Option ℕ := (List.range 32).find? fun digit => base32Char digit == u

/-- How a base32 text without padding is read: fewer than five bits may be left, and they are zero. -/
def base32Decode (text : JsString) : Option (List UInt8) :=
  (text.mapM base32Value).bind fun digits =>
    let s := regroup 5 8 id digits
    if s.bits < 5 && s.value == 0 then some (s.out.map UInt8.ofNat) else none

section

variable {text : JsString} {bytes : List UInt8} {digits : List ℕ} {u : UInt16} {digit : ℕ}

theorem base32Value_iff : base32Value u = some digit ↔ digit < 32 ∧ base32Char digit = u := by
  constructor
  · intro h
    rw [base32Value] at h
    have hsome := List.find?_some h
    exact ⟨List.mem_range.mp (List.mem_of_find?_eq_some h), beq_iff_eq.mp hsome⟩
  · rintro ⟨hdigit, rfl⟩
    have hall : ∀ d < 32, base32Value (base32Char d) = some d := by decide
    exact hall digit hdigit

theorem mapM_base32Value :
    text.mapM base32Value = some digits ↔ text = digits.map base32Char ∧ ∀ d ∈ digits, d < 32 := by
  induction text generalizing digits with
  | nil =>
    rw [List.mapM_nil]
    constructor
    · intro h
      cases h
      exact ⟨rfl, fun d hd => absurd hd List.not_mem_nil⟩
    · rintro ⟨h, -⟩
      rw [List.map_eq_nil_iff.mp h.symm]
      rfl
  | cons u rest ih =>
    rw [List.mapM_cons]
    constructor
    · intro h
      obtain ⟨d, hd, h⟩ := Option.bind_eq_some_iff.mp h
      obtain ⟨ds, hds, h⟩ := Option.bind_eq_some_iff.mp h
      cases h
      obtain ⟨hlt, rfl⟩ := base32Value_iff.mp hd
      obtain ⟨rfl, hall⟩ := ih.mp hds
      exact ⟨rfl, List.forall_mem_cons.mpr ⟨hlt, hall⟩⟩
    · rintro ⟨h, hall⟩
      cases digits with
      | nil => cases h
      | cons d ds =>
        rw [List.map_cons] at h
        obtain ⟨rfl, hrest⟩ := List.cons.inj h
        rw [base32Value_iff.mpr ⟨hall d List.mem_cons_self, rfl⟩,
          ih.mpr ⟨hrest, fun e he => hall e (List.mem_cons_of_mem _ he)⟩]
        rfl

theorem toNat_lt_of_mem_map (bytes : List UInt8) : ∀ x ∈ bytes.map UInt8.toNat, x < 2 ^ 8 := by
  intro x hx
  obtain ⟨b, -, rfl⟩ := List.mem_map.mp hx
  exact b.toNat_lt

/-- **A text is read as the bytes it is the text key of**, and as nothing when it is the text key of none. -/
theorem base32Decode_iff : base32Decode text = some bytes ↔ base32Encode bytes = text := by
  obtain ⟨ds, k, hpadded, hds, hk, hspells⟩ :=
    padded_spells (by decide : 0 < 5) base32Char (toNat_lt_of_mem_map bytes)
  constructor
  · intro h
    obtain ⟨es, hes, hvalue⟩ := Option.bind_eq_some_iff.mp h
    obtain ⟨rfl, hall⟩ := mapM_base32Value.mp hes
    dsimp only at hvalue
    split at hvalue
    · rename_i hcond
      obtain ⟨hbits, hzero⟩ := Bool.and_eq_true_iff.mp hcond
      obtain ⟨hread, hbytes⟩ := regroup_spells (a := 5) (b := 8) (by decide) hall (beq_iff_eq.mp hzero)
      have hout : bytes.map UInt8.toNat = (regroup 5 8 id es).out := by
        rw [← Option.some.inj hvalue, List.map_map]
        refine (List.map_congr_left fun x hx => ?_).trans (List.map_id _)
        exact UInt8.toNat_ofNat_of_lt' (hbytes x hx)
      rw [← hout] at hread
      rw [base32Encode, hpadded, hspells.right_unique hread hk (of_decide_eq_true hbits) hds hall]
    · cases hvalue
  · rintro rfl
    have hdigits : (base32Encode bytes).mapM base32Value = some ds := mapM_base32Value.mpr ⟨hpadded, hds⟩
    have hread : regroup 5 8 id ds = ⟨0, k, bytes.map UInt8.toNat⟩ :=
      regroup_of_spells hspells (by omega) (toNat_lt_of_mem_map bytes) hds
    have hback : (bytes.map UInt8.toNat).map UInt8.ofNat = bytes := by
      rw [List.map_map]
      exact (List.map_congr_left fun b _ => UInt8.ofNat_toNat).trans (List.map_id _)
    rw [base32Decode, hdigits, Option.bind_some, hread]
    dsimp only
    rw [if_pos (by rw [decide_eq_true hk]; rfl), hback]

end

/-- The text of the test vector of RFC 4648. -/
example : base32Encode "foobar".toUTF8.data.toList = js "MZXW6YTBOI" := by decide

/-! ## The key URI -/

/-- `TOTP_DIGITS`. -/
def totpDigits : ℕ := 6

/-- `TOTP_PERIOD_SECONDS`. -/
def totpPeriodSeconds : ℕ := 30

/-- The parameters of a key URI. -/
def otpauthQuery (issuer secret : JsString) : List (JsString × JsString) :=
  [(js "secret", secret), (js "issuer", issuer), (js "algorithm", js "SHA1"), (js "digits", js (Nat.repr totpDigits)),
    (js "period", js (Nat.repr totpPeriodSeconds))]

/-- `otpauthUri`; none where `encodeURIComponent` throws. -/
def otpauthUri (issuer account secret : JsString) : Option JsString :=
  let query := queryText formEncode (otpauthQuery issuer secret)
  (encodeURIComponent issuer).bind fun issuer => (encodeURIComponent account).map fun account =>
    js "otpauth://totp/" ++ issuer ++ js ":" ++ account ++ js "?" ++ spacesAsCodes query

/-- What an authenticator app has from a key URI. -/
structure KeyUri where
  issuer : JsString
  account : JsString
  secret : List UInt8
  parameters : List (JsString × JsString)
  deriving DecidableEq, Repr

/-- How an authenticator app reads a key URI: a label of two parts, and a query with the secret as a text key. -/
def readKeyUri (uri : JsString) : Option KeyUri :=
  if (js "otpauth://totp/").isPrefixOf uri then
    (cutAt 0x3F (uri.drop (js "otpauth://totp/").length)).bind fun parts =>
      (cutAt 0x3A parts.1).bind fun label =>
        (decodeURIComponent label.1).bind fun issuer =>
          (decodeURIComponent label.2).bind fun account =>
            (readQuery parts.2).bind fun parameters =>
              ((parameters.lookup (js "secret")).bind base32Decode).map fun secret =>
                ⟨issuer, account, secret, parameters⟩
  else none

theorem wellFormed_base32Encode (bytes : List UInt8) : WellFormed (base32Encode bytes) := by
  obtain ⟨ds, k, hpadded, hds, -, -⟩ := padded_spells (by decide : 0 < 5) base32Char (toNat_lt_of_mem_map bytes)
  rw [base32Encode, hpadded]
  refine wellFormed_of_units fun u hu => ?_
  obtain ⟨d, hd, rfl⟩ := List.mem_map.mp hu
  have hall : ∀ d < 32, isHighSurrogate (base32Char d) = false ∧ isLowSurrogate (base32Char d) = false := by
    decide
  exact hall d (hds d hd)

/-- **What an authenticator app reads from a key URI is what it was made of**, the issuer and the account as they were
written and the secret byte for byte. -/
theorem readKeyUri_otpauthUri {issuer account uri : JsString} (secret : List UInt8)
    (h : otpauthUri issuer account (base32Encode secret) = some uri) :
    readKeyUri uri = some ⟨issuer, account, secret, otpauthQuery issuer (base32Encode secret)⟩ := by
  obtain ⟨i, hi, h⟩ := Option.bind_eq_some_iff.mp h
  obtain ⟨a, ha, rfl⟩ := Option.map_eq_some_iff.mp h
  obtain ⟨hissuer, rfl⟩ := encodeURIComponent_eq_some.mp hi
  obtain ⟨haccount, rfl⟩ := encodeURIComponent_eq_some.mp ha
  have hliteral : ∀ text : JsString, text.all isAlphanumeric = true → WellFormed text := by
    intro text htext
    refine wellFormed_of_units fun u hu => not_surrogate_of_lt ?_
    have hu := List.all_eq_true.mp htext u hu
    simp only [isAlphanumeric, Bool.or_eq_true, Bool.and_eq_true, decide_eq_true_eq, UInt16.le_iff_toNat_le] at hu
    have h1 : (0x39 : UInt16).toNat = 0x39 := rfl
    have h2 : (0x5A : UInt16).toNat = 0x5A := rfl
    have h3 : (0x7A : UInt16).toNat = 0x7A := rfl
    omega
  have hquery : readQuery (spacesAsCodes (queryText formEncode (otpauthQuery issuer (base32Encode secret)))) =
      some (otpauthQuery issuer (base32Encode secret)) := by
    rw [spacesAsCodes_queryText]
    refine readQuery_queryText (List.cons_ne_nil _ _) ?_
    simp only [otpauthQuery, List.forall_mem_cons]
    refine ⟨⟨hliteral _ (by decide), wellFormed_base32Encode secret⟩, ⟨hliteral _ (by decide), hissuer⟩,
      ⟨hliteral _ (by decide), hliteral _ (by decide)⟩,
      ⟨hliteral _ (by decide), hliteral _ (by decide)⟩,
      ⟨hliteral _ (by decide), hliteral _ (by decide)⟩, fun p hp => absurd hp List.not_mem_nil⟩
  have hquestion : 0x3F ∉ percentEncode inComponentSet issuer ++ 0x3A :: percentEncode inComponentSet account := by
    intro hmem
    rcases List.mem_append.mp hmem with hmem | hmem
    · exact not_mem_percentEncode (by decide) (by decide) hmem
    · rcases List.mem_cons.mp hmem with heq | hmem
      · revert heq
        decide
      · exact not_mem_percentEncode (by decide) (by decide) hmem
  have huri : js "otpauth://totp/" ++ percentEncode inComponentSet issuer ++ js ":" ++
      percentEncode inComponentSet account ++ js "?" ++
        spacesAsCodes (queryText formEncode (otpauthQuery issuer (base32Encode secret))) =
      js "otpauth://totp/" ++ ((percentEncode inComponentSet issuer ++ 0x3A :: percentEncode inComponentSet account) ++
        0x3F :: spacesAsCodes (queryText formEncode (otpauthQuery issuer (base32Encode secret)))) := by
    simp only [List.append_assoc, List.cons_append]
    rfl
  rw [huri, readKeyUri, if_pos (List.isPrefixOf_iff_prefix.mpr (List.prefix_append _ _)), List.drop_left,
    cutAt_append hquestion, Option.bind_some]
  dsimp only
  rw [cutAt_append (not_mem_percentEncode (by decide) (by decide)), Option.bind_some]
  dsimp only
  rw [decodeURIComponent_percentEncode (by decide) hissuer, Option.bind_some,
    decodeURIComponent_percentEncode (by decide) haccount, Option.bind_some, hquery, Option.bind_some]
  have hsecret : (otpauthQuery issuer (base32Encode secret)).lookup (js "secret") = some (base32Encode secret) := by
    rw [otpauthQuery, List.lookup_cons_self]
  rw [hsecret, Option.bind_some, base32Decode_iff.mpr rfl]
  rfl

theorem readKeyUri_otpauthUri_member :
    readKeyUri (js ("otpauth://totp/A%20%26%20B:m%40x.org?" ++
      "secret=MZXW6&issuer=A%20%26%20B&algorithm=SHA1&digits=6&period=30")) =
        some ⟨js "A & B", js "m@x.org", "foo".toUTF8.data.toList, otpauthQuery (js "A & B") (js "MZXW6")⟩ := by
  have hsecret : base32Encode "foo".toUTF8.data.toList = js "MZXW6" := by decide
  have huri : otpauthUri (js "A & B") (js "m@x.org") (base32Encode "foo".toUTF8.data.toList) =
      some (js ("otpauth://totp/A%20%26%20B:m%40x.org?" ++
        "secret=MZXW6&issuer=A%20%26%20B&algorithm=SHA1&digits=6&period=30")) := by
    rw [hsecret]
    show _ = some (List.flatMap encode (String.toList _))
    rw [String.toList_append,
      show "otpauth://totp/A%20%26%20B:m%40x.org?" = String.ofList _ from rfl, String.toList_ofList,
      show "secret=MZXW6&issuer=A%20%26%20B&algorithm=SHA1&digits=6&period=30" = String.ofList _ from rfl,
      String.toList_ofList]
    decide +kernel
  rw [← hsecret]
  exact readKeyUri_otpauthUri _ huri

/-! ## The codes of time steps -/

/-- `TOTP_SKEW_STEPS`. -/
def totpSkewSteps : ℕ := 1

/-- `MODULUS`. -/
def modulus : ℕ := 10 ^ totpDigits

/-- `totpStep`, of an instant in milliseconds. -/
def totpStep (nowMs : ℤ) : ℤ := nowMs / 1000 / totpPeriodSeconds

/-- `writeBigUInt64BE`; none where it throws. -/
def writeBigUInt64BE (n : ℕ) : Option (List UInt8) :=
  if n < 2 ^ 64 then some ((List.range 8).map fun i => UInt8.ofNat (n >>> (8 * (7 - i)))) else none

/-- `readUInt32BE`; none where it throws. -/
def readUInt32BE (bytes : List UInt8) (offset : ℕ) : Option ℕ :=
  if offset + 4 ≤ bytes.length then some (((bytes.drop offset).take 4).foldl (fun n b => n * 256 + b.toNat) 0) else none

/-- `timingSafeEqual`; none where it throws. -/
def timingSafeEqual (a b : List UInt8) : Option Bool := if a.length = b.length then some (a == b) else none

/-- `CODE_PATTERN`. -/
def codePattern (s : JsString) : Bool := s.length == 6 && s.all fun u => 0x30 ≤ u && u ≤ 0x39

/-- `code.replace(/ /g, "")`. -/
def withoutSpaces (code : JsString) : JsString := code.filter fun u => u != 0x20

section

variable (hmac : List UInt8 → List UInt8 → List UInt8)

/-- `totpCode`, over the HMAC of a key and a message; none where it throws. -/
def totpCode (secret : List UInt8) (step : ℕ) : Option JsString :=
  (writeBigUInt64BE step).bind fun counter =>
    let digest := hmac secret counter
    let offset := (digest.getLast?.map UInt8.toNat).getD 0 &&& 0x0F
    (readUInt32BE digest offset).map fun binary =>
      (js (Nat.repr ((binary &&& 0x7FFFFFFF) % modulus))).leftpad totpDigits 0x30

/-- One turn of the loop of `verifyTotp`. -/
def compareStep (secret : List UInt8) (given : JsString) (step : ℤ) (matched : Option ℕ) : Option (Option ℕ) :=
  if step < 1 then some matched
  else (totpCode hmac secret step.toNat).bind fun expected =>
    (timingSafeEqual (utf8 expected) (utf8 given)).map fun same => if same then some step.toNat else matched

/-- `verifyTotp`: the last time step that matched; none where it throws. -/
def verifyTotp (secret : List UInt8) (code : JsString) (nowMs : ℤ) : Option (Option ℕ) :=
  let typed := withoutSpaces code
  let given := if codePattern typed then typed else List.replicate totpDigits 0x2D
  (List.range (2 * totpSkewSteps + 1)).foldlM
    (fun matched (i : ℕ) => compareStep hmac secret given (totpStep nowMs - totpSkewSteps + i) matched) none

/-- The first `n` time steps from `first` on that a text is the code of. -/
def stepsOf (secret : List UInt8) (text : JsString) (first : ℤ) (n : ℕ) : Set ℕ :=
  {step | 1 ≤ step ∧ first ≤ step ∧ (step : ℤ) < first + n ∧ totpCode hmac secret step = some text}

end

section

variable {hmac : List UInt8 → List UInt8 → List UInt8} {secret : List UInt8} {code text : JsString} {step : ℕ}

theorem js_repr (n : ℕ) : js (Nat.repr n) = (Nat.toDigits 10 n).map fun c => UInt16.ofNat c.toNat := by
  have hunits : ∀ c ∈ Nat.toDigits 10 n, encode c = [UInt16.ofNat c.toNat] := by
    intro c hc
    obtain ⟨-, hhigh⟩ := PrefixCode.digit_bounds (Nat.isDigit_of_mem_toDigits (by decide) (by decide) hc)
    rw [encode, if_pos (by omega)]
  rw [js, Nat.toList_repr]
  generalize Nat.toDigits 10 n = cs at hunits
  induction cs with
  | nil => rfl
  | cons c rest ih =>
    rw [List.flatMap_cons, hunits c List.mem_cons_self, ih fun d hd => hunits d (List.mem_cons_of_mem _ hd)]
    rfl

theorem units_of_repr {n : ℕ} {u : UInt16} (h : u ∈ js (Nat.repr n)) : 0x30 ≤ u.toNat ∧ u.toNat ≤ 0x39 := by
  rw [js_repr] at h
  obtain ⟨c, hc, rfl⟩ := List.mem_map.mp h
  obtain ⟨hlow, hhigh⟩ := PrefixCode.digit_bounds (Nat.isDigit_of_mem_toDigits (by decide) (by decide) hc)
  rw [UInt16.toNat_ofNat_of_lt' (by have : UInt16.size = 65536 := rfl; omega)]
  exact ⟨hlow, hhigh⟩

theorem codePattern_iff : codePattern text = true ↔ text.length = 6 ∧ ∀ u ∈ text, 0x30 ≤ u.toNat ∧ u.toNat ≤ 0x39 := by
  rw [codePattern, Bool.and_eq_true, beq_iff_eq, List.all_eq_true]
  simp only [Bool.and_eq_true, decide_eq_true_eq, UInt16.le_iff_toNat_le]
  rfl

/-- **A code is six digits**, and it is there for every step that is written in eight bytes. -/
theorem totpCode_spec (secret : List UInt8) (hdigest : ∀ key message, (hmac key message).length = 20)
    (hstep : step < 2 ^ 64) : ∃ code, totpCode hmac secret step = some code ∧ codePattern code = true := by
  rw [totpCode, writeBigUInt64BE, if_pos hstep, Option.bind_some]
  dsimp only
  have hlength := hdigest secret ((List.range 8).map fun i => UInt8.ofNat (step >>> (8 * (7 - i))))
  generalize hmac secret ((List.range 8).map fun i => UInt8.ofNat (step >>> (8 * (7 - i)))) = digest at hlength
  have hoffset : (digest.getLast?.map UInt8.toNat).getD 0 &&& 0x0F ≤ 15 := Nat.and_le_right
  rw [readUInt32BE, if_pos (by omega), Option.map_some]
  refine ⟨_, rfl, codePattern_iff.mpr ⟨?_, ?_⟩⟩
  · have hdigits : ∀ n, (js (Nat.repr (n % modulus))).length ≤ 6 := by
      intro n
      rw [js_repr, List.length_map, Nat.length_toDigits_le_iff (by decide) (by decide)]
      exact Nat.mod_lt _ (by decide)
    rw [List.leftpad, List.length_append, List.length_replicate]
    exact Nat.sub_add_cancel (hdigits _)
  · intro u hu
    rcases List.mem_append.mp hu with hu | hu
    · rw [(List.mem_replicate.mp hu).2]
      decide
    · exact units_of_repr hu

theorem wellFormed_of_ascii (h : ∀ u ∈ text, u.toNat < 0x80) : WellFormed text :=
  wellFormed_of_units fun u hu => not_surrogate_of_lt (by have := h u hu; omega)

theorem length_utf8 (h : ∀ u ∈ text, u.toNat < 0x80) : (utf8 text).length = text.length := by
  rw [utf8_of_ascii h, List.length_map]

/-- **One turn of the loop**: the step is the match when the text is its code. -/
theorem compareStep_spec (hdigest : ∀ key message, (hmac key message).length = 20) {given : JsString}
    (hlength : given.length = 6) (hascii : ∀ u ∈ given, u.toNat < 0x80) {i : ℤ} (hi : i < 2 ^ 64) (matched : Option ℕ) :
    compareStep hmac secret given i matched =
      some (if 1 ≤ i ∧ totpCode hmac secret i.toNat = some given then some i.toNat else matched) := by
  by_cases hpos : i < 1
  · rw [compareStep, if_pos hpos, if_neg fun h => absurd h.1 (Int.not_le.mpr hpos)]
  · obtain ⟨code, hcode, hpattern⟩ := @totpCode_spec hmac i.toNat secret hdigest (by omega)
    obtain ⟨hsix, hdigits⟩ := codePattern_iff.mp hpattern
    have hascii' : ∀ u ∈ code, u.toNat < 0x80 := fun u hu => by have := hdigits u hu; omega
    have hbytes : (utf8 code).length = (utf8 given).length := by
      rw [length_utf8 hascii', length_utf8 hascii, hsix, hlength]
    rw [compareStep, if_neg hpos, hcode, Option.bind_some, timingSafeEqual, if_pos hbytes, Option.map_some]
    by_cases hsame : code = given
    · rw [hsame, beq_self_eq_true, if_pos rfl, if_pos ⟨by omega, rfl⟩]
    · have hbeq : (utf8 code == utf8 given) = false := beq_eq_false_iff_ne.mpr fun heq =>
        hsame (utf8_injective (wellFormed_of_ascii hascii') (wellFormed_of_ascii hascii) heq)
      rw [hbeq, if_neg (by decide), if_neg fun h => hsame (Option.some.inj h.2)]

/-- The loop answers with the latest of the steps it has tried that the text is the code of. -/
theorem fold_compareStep (hdigest : ∀ key message, (hmac key message).length = 20) {given : JsString}
    (hlength : given.length = 6) (hascii : ∀ u ∈ given, u.toNat < 0x80) {first : ℤ} (n : ℕ) (hn : first + n ≤ 2 ^ 64) :
    ∃ matched, (List.range n).foldlM (fun matched (i : ℕ) => compareStep hmac secret given (first + i) matched) none =
      some matched ∧ ∀ step, matched = some step ↔ IsGreatest (stepsOf hmac secret given first n) step := by
  induction n with
  | zero =>
    refine ⟨none, rfl, fun step => ⟨fun h => absurd h (Option.some_ne_none step).symm, fun h => ?_⟩⟩
    obtain ⟨-, hlow, hhigh, -⟩ := h.1
    omega
  | succ n ih =>
    obtain ⟨matched, hrun, hmatched⟩ := ih (by omega)
    rw [List.range_succ, List.foldlM_append, hrun, Option.bind_eq_bind, Option.bind_some, List.foldlM_cons,
      compareStep_spec hdigest hlength hascii (by omega)]
    refine ⟨_, rfl, fun step => ?_⟩
    by_cases hnow : 1 ≤ first + n ∧ totpCode hmac secret (first + n).toNat = some given
    · rw [if_pos hnow]
      have hgreatest : IsGreatest (stepsOf hmac secret given first (n + 1)) (first + n).toNat := by
        refine ⟨⟨by omega, by omega, by omega, hnow.2⟩, fun s hs => ?_⟩
        obtain ⟨-, -, hhigh, -⟩ := hs
        omega
      constructor
      · intro h
        rw [← Option.some.inj h]
        exact hgreatest
      · intro h
        rw [h.unique hgreatest]
    · rw [if_neg hnow, hmatched]
      have hsame : stepsOf hmac secret given first (n + 1) = stepsOf hmac secret given first n := by
        ext s
        constructor
        · rintro ⟨hpos, hlow, hhigh, hcode⟩
          refine ⟨hpos, hlow, ?_, hcode⟩
          have hne : (s : ℤ) ≠ first + n := by
            intro heq
            refine hnow ⟨by omega, ?_⟩
            rw [← heq, Int.toNat_natCast]
            exact hcode
          omega
        · rintro ⟨hpos, hlow, hhigh, hcode⟩
          exact ⟨hpos, hlow, by omega, hcode⟩
      rw [hsame]

/-- **What `verifyTotp` answers**: it never throws, and the step is the latest around the instant that the typed text,
without its spaces, is the code of. -/
theorem verifyTotp_spec (secret : List UInt8) (code : JsString) (hdigest : ∀ key message, (hmac key message).length = 20)
    {nowMs : ℤ} (hnow : totpStep nowMs + 1 < 2 ^ 64) :
    ∃ matched, verifyTotp hmac secret code nowMs = some matched ∧ ∀ step, matched = some step ↔
      IsGreatest (stepsOf hmac secret (withoutSpaces code) (totpStep nowMs - 1) 3) step := by
  have hskew : 2 * totpSkewSteps + 1 = 3 := rfl
  have hfirst : totpStep nowMs - (totpSkewSteps : ℤ) = totpStep nowMs - 1 := rfl
  by_cases hpattern : codePattern (withoutSpaces code) = true
  · obtain ⟨hlength, hdigits⟩ := codePattern_iff.mp hpattern
    rw [verifyTotp, if_pos hpattern, hskew, hfirst]
    exact fold_compareStep hdigest hlength (fun u hu => by have := hdigits u hu; omega) 3 (by omega)
  · have hdashes : ∀ u ∈ List.replicate totpDigits (0x2D : UInt16), u.toNat < 0x80 := by
      intro u hu
      rw [(List.mem_replicate.mp hu).2]
      decide
    obtain ⟨matched, hrun, hmatched⟩ := @fold_compareStep hmac secret hdigest _ rfl hdashes (totpStep nowMs - 1) 3 (by omega)
    rw [verifyTotp, if_neg hpattern, hskew, hfirst]
    refine ⟨matched, hrun, fun step => ?_⟩
    -- neither the dashes nor the text that is no code are the code of any step
    have hnone : ∀ given : JsString, codePattern given = false → ∀ step,
        ¬ IsGreatest (stepsOf hmac secret given (totpStep nowMs - 1) 3) step := by
      intro given hgiven step h
      obtain ⟨-, -, hhigh, hcode⟩ := h.1
      obtain ⟨c, hc, hcpattern⟩ := @totpCode_spec hmac step secret hdigest (by omega)
      rw [hc] at hcode
      rw [← Option.some.inj hcode, hcpattern] at hgiven
      cases hgiven
    rw [hmatched]
    exact ⟨fun h => absurd h (hnone _ (by decide) step),
      fun h => absurd h (hnone _ (Bool.not_eq_true _ ▸ hpattern) step)⟩

end

/-! ## When a code is accepted -/

/-- The latest instant of a `Date`, in milliseconds. -/
def latestInstant : ℤ := 8640000000000000

theorem totpStep_lt {nowMs : ℤ} (h : nowMs ≤ latestInstant) : totpStep nowMs + 1 < 2 ^ 64 := by
  simp only [latestInstant] at h
  simp only [totpStep, totpPeriodSeconds]
  omega

section

variable {hmac : List UInt8 → List UInt8 → List UInt8} {secret : List UInt8} {code : JsString} {nowMs : ℤ}

theorem bddAbove_stepsOf (text : JsString) (first : ℤ) (n : ℕ) :
    BddAbove (stepsOf hmac secret text first n) := by
  refine ⟨(first + n).toNat, fun step h => ?_⟩
  obtain ⟨-, -, hhigh, -⟩ := h
  omega

/-- **`verifyTotp` never throws, and it accepts the code of a time step from thirty seconds before the step to thirty
seconds behind it**, with spaces anywhere in it, and nothing else. -/
theorem verifyTotp_window (secret : List UInt8) (code : JsString) (hdigest : ∀ key message, (hmac key message).length = 20)
    (hnow : nowMs ≤ latestInstant) :
    verifyTotp hmac secret code nowMs ≠ none ∧
      ((∃ step, verifyTotp hmac secret code nowMs = some (some step)) ↔
        ∃ step : ℕ, 1 ≤ step ∧ ((step : ℤ) - 1) * (1000 * totpPeriodSeconds) ≤ nowMs ∧
          nowMs < ((step : ℤ) + 2) * (1000 * totpPeriodSeconds) ∧
          totpCode hmac secret step = some (withoutSpaces code)) := by
  obtain ⟨matched, hrun, hmatched⟩ := verifyTotp_spec secret code hdigest (totpStep_lt hnow)
  have hwindow : ∀ step : ℕ, step ∈ stepsOf hmac secret (withoutSpaces code) (totpStep nowMs - 1) 3 ↔
      1 ≤ step ∧ ((step : ℤ) - 1) * (1000 * totpPeriodSeconds) ≤ nowMs ∧
        nowMs < ((step : ℤ) + 2) * (1000 * totpPeriodSeconds) ∧
        totpCode hmac secret step = some (withoutSpaces code) := by
    intro step
    simp only [stepsOf, Set.mem_ofPred_eq, totpStep, totpPeriodSeconds]
    constructor
    · rintro ⟨hpos, hlow, hhigh, hcode⟩
      exact ⟨hpos, by omega, by omega, hcode⟩
    · rintro ⟨hpos, hlow, hhigh, hcode⟩
      exact ⟨hpos, by omega, by omega, hcode⟩
  rw [hrun]
  refine ⟨Option.some_ne_none _, ?_⟩
  constructor
  · rintro ⟨step, hstep⟩
    exact ⟨step, (hwindow step).mp ((hmatched step).mp (Option.some.inj hstep)).1⟩
  · rintro ⟨step, hstep⟩
    obtain ⟨latest, hlatest⟩ := (bddAbove_stepsOf _ _ _).exists_isGreatest_of_nonempty
      ⟨step, (hwindow step).mpr hstep⟩
    exact ⟨latest, congrArg some ((hmatched latest).mpr hlatest)⟩

end

/-- The secret of the test vectors of RFC 4226. -/
def vectorSecret : List UInt8 := (js "12345678901234567890").map fun u => UInt8.ofNat u.toNat

/-- HMAC-SHA-1 under the secret of the test vectors, at the counters around 336 and 2205; both have one code. -/
def vectorHmac (key message : List UInt8) : List UInt8 :=
  if key ≠ vectorSecret then List.replicate 20 0
  else if message = [0, 0, 0, 0, 0, 0, 1, 79] then
    [0x3A, 0xBA, 0x69, 0x71, 0xB7, 0xBE, 0x81, 0xB8, 0xC4, 0x3F,
      0x94, 0x08, 0xF6, 0xB3, 0x91, 0x84, 0x99, 0x6F, 0x24, 0x70]
  else if message = [0, 0, 0, 0, 0, 0, 1, 80] then
    [0x55, 0xB8, 0x55, 0xCF, 0x30, 0x1C, 0xA8, 0xDB, 0xB9, 0x06,
      0xB3, 0xED, 0x0D, 0x7B, 0x5A, 0x66, 0xE8, 0x40, 0x7C, 0x70]
  else if message = [0, 0, 0, 0, 0, 0, 1, 81] then
    [0x53, 0x0D, 0x82, 0xD1, 0xF6, 0xDA, 0x91, 0xDE, 0x54, 0xB9,
      0xC5, 0x99, 0x91, 0x30, 0xBB, 0x7B, 0x2B, 0x6A, 0xA7, 0xA6]
  else if message = [0, 0, 0, 0, 0, 0, 8, 156] then
    [0xD0, 0x4E, 0x6C, 0x98, 0xE7, 0x84, 0x89, 0xC2, 0x69, 0xAD,
      0xDC, 0x96, 0x2D, 0xA8, 0x35, 0x4E, 0xA8, 0xFA, 0x04, 0xE0]
  else if message = [0, 0, 0, 0, 0, 0, 8, 157] then
    [0x3C, 0xE0, 0x90, 0x3F, 0x40, 0x44, 0xF8, 0x9D, 0x8F, 0x12,
      0x14, 0x6A, 0xCC, 0xE3, 0xEE, 0xED, 0x0A, 0x99, 0x65, 0x35]
  else if message = [0, 0, 0, 0, 0, 0, 8, 158] then
    [0xCD, 0x5F, 0x25, 0x05, 0xCC, 0xDA, 0xC8, 0xDC, 0x0B, 0x11,
      0x29, 0x88, 0x3F, 0xE1, 0xB9, 0xA0, 0xFB, 0xB5, 0xA8, 0xA5]
  else List.replicate 20 0

theorem length_vectorHmac (key message : List UInt8) : (vectorHmac key message).length = 20 := by
  unfold vectorHmac
  split_ifs <;> rfl

theorem verifyTotp_window_vector :
    verifyTotp vectorHmac vectorSecret (js "143 951") 10080000 ≠ none ∧
      ((∃ step, verifyTotp vectorHmac vectorSecret (js "143 951") 10080000 = some (some step)) ↔
        ∃ step : ℕ, 1 ≤ step ∧ ((step : ℤ) - 1) * (1000 * totpPeriodSeconds) ≤ 10080000 ∧
          10080000 < ((step : ℤ) + 2) * (1000 * totpPeriodSeconds) ∧
          totpCode vectorHmac vectorSecret step = some (withoutSpaces (js "143 951"))) :=
  verifyTotp_window vectorSecret (js "143 951") length_vectorHmac (by decide)

section

variable {hmac : List UInt8 → List UInt8 → List UInt8} {secret : List UInt8} {code code' : JsString} {nowMs nowMs' : ℤ}
  {step step' : ℕ}

theorem of_verifyTotp (hdigest : ∀ key message, (hmac key message).length = 20) (hnow : nowMs ≤ latestInstant)
    (h : verifyTotp hmac secret code nowMs = some (some step)) :
    IsGreatest (stepsOf hmac secret (withoutSpaces code) (totpStep nowMs - 1) 3) step := by
  obtain ⟨matched, hrun, hmatched⟩ := verifyTotp_spec secret code hdigest (totpStep_lt hnow)
  rw [hrun] at h
  exact (hmatched step).mp (Option.some.inj h)

theorem Each.split {P : List Entry → Entry → Prop} {newer older : List Entry} {e : Entry}
    (h : Each P (newer ++ e :: older)) : P older e := by
  have hrest := h.drop newer.length
  rw [List.drop_left] at hrest
  exact hrest.1

/-- **A typed code is not accepted again.** In a run that presents no code of a replaced secret, a text of which a time
step was accepted verifies to a step that is accepted later only when that step is none of those the text was compared
with at first, and the clock has gone on by a step. -/
theorem code_not_accepted_again {s : Service} (h : (secondFactor.restrict Unreplaced).Reachable s) (key : ℕ → List UInt8)
    (hdigest : ∀ key message, (hmac key message).length = 20) {newer older : List Entry} {a a' : Uuid} {drawn : ℕ}
    (hlog : s.db.log = newer ++ .accepted a drawn step :: older) (hearlier : .accepted a' drawn step' ∈ older)
    (hnow : nowMs ≤ latestInstant) (hnow' : nowMs' ≤ latestInstant) (hsame : withoutSpaces code = withoutSpaces code')
    (hfirst : verifyTotp hmac (key drawn) code' nowMs' = some (some step'))
    (hagain : verifyTotp hmac (key drawn) code nowMs = some (some step)) :
    totpStep nowMs' + 1 < step ∧ totpStep nowMs' < totpStep nowMs := by
  have hjustified : Each Justified s.db.log := (Kept.reachable h).sound.justified
  rw [hlog] at hjustified
  have hlater : step' < step := hjustified.split.1 a' step' hearlier
  obtain ⟨⟨hpos', hlow', hhigh', -⟩, hlatest⟩ := of_verifyTotp hdigest hnow' hfirst
  obtain ⟨⟨hpos, hlow, hhigh, hcode⟩, -⟩ := of_verifyTotp hdigest hnow hagain
  -- had the step been tried at first, it would have been the answer then: the latest match is answered
  have hout : totpStep nowMs' + 1 < step := by
    by_contra hin
    have hle : step ≤ step' := hlatest ⟨hpos, by omega, by omega, hsame ▸ hcode⟩
    omega
  exact ⟨hout, by omega⟩

end

/-- An enrolment with the code of step 336, and a sign-in with the same digits of step 2205. -/
def sameDigits : List (Event × Timestamp) :=
  [(.createAccount 1, 1), (.createSession 20 1 .full false, 2), (.startEnrollment 1 ⟨100, 0⟩, 3),
    (.confirmEnrollment 1 20 336, 4), (.finish 0 [(30, "h"), (31, "h")], 5),
    (.createSession 21 1 .partialLevel false, 6), (.verifySecondFactor 1 21 (some (.totp 2205)), 7), (.finish 0 [], 8)]

/-- The service after both. -/
def afterSameDigits : Service := (System.follow Service.unreplacedNext {} sameDigits).getD {}

theorem code_not_accepted_again_sameDigits :
    totpStep 10080000 + 1 < (2205 : ℕ) ∧ totpStep 10080000 < totpStep 66150000 := by
  have hreachable : (secondFactor.restrict Unreplaced).Reachable afterSameDigits :=
    System.Reachable.follow
      (fun s e s' hnext => by
        rw [Service.unreplacedNext] at hnext
        split at hnext
        · rename_i hcond
          exact ⟨hnext, .of_unreplaced hcond⟩
        · cases hnext)
      (.init rfl) _ _ (by decide)
  have hlog : afterSameDigits.db.log =
      afterSameDigits.db.log.take 1 ++ Entry.accepted 1 100 2205 :: afterSameDigits.db.log.drop 2 := by decide
  have hearlier : Entry.accepted 1 100 336 ∈ afterSameDigits.db.log.drop 2 := by decide
  have hsame : withoutSpaces (js "143951") = withoutSpaces (js "143 951") := by decide
  have hfirst : verifyTotp vectorHmac vectorSecret (js "143 951") 10080000 = some (some 336) := by decide
  have hagain : verifyTotp vectorHmac vectorSecret (js "143951") 66150000 = some (some 2205) := by decide
  exact code_not_accepted_again hreachable (fun _ => vectorSecret) length_vectorHmac hlog hearlier (by decide)
    (by decide) hsame hfirst hagain

end SlugBase.Mfa
