import Mathlib.Data.List.Basic

/-!
# Codes that show where they end

A code of which no word starts another one: what is written with it can be told apart, whatever follows.

* `PrefixFree`, **`PrefixFree.flatMap_injective`**, `PrefixFree.terminated`: words in a row, alone or before a terminator;
* `decimal`, `lengthPrefixed`, **`prefixFree_lengthPrefixed`**: bytes after their number in decimal.
-/

namespace PrefixCode

variable {α β : Type}

/-- No word of the code starts a word of another letter. -/
def PrefixFree (letters : α → Prop) (code : α → List β) : Prop :=
  ∀ a b, letters a → letters b → ∀ r r', code a ++ r = code b ++ r' → a = b ∧ r = r'

theorem prefixFree_of_read {letters : α → Prop} {code : α → List β} (read : List β → Option (α × List β))
    (h : ∀ a, letters a → ∀ r, read (code a ++ r) = some (a, r)) : PrefixFree letters code := by
  intro a b ha hb r r' heq
  have hread := (h a ha r).symm.trans ((congrArg read heq).trans (h b hb r'))
  simpa using hread

theorem prefixFree_of_length {letters : α → Prop} {code : α → List β} (length : ℕ) (hlength : ∀ a, (code a).length = length)
    (hinjective : ∀ a b, letters a → letters b → code a = code b → a = b) : PrefixFree letters code := by
  intro a b ha hb r r' heq
  obtain ⟨hcode, hrest⟩ := List.append_inj heq ((hlength a).trans (hlength b).symm)
  exact ⟨hinjective a b ha hb hcode, hrest⟩

namespace PrefixFree

variable {letters : α → Prop} {code : α → List β}

/-- Words in a row before a terminator that starts none of them. -/
theorem terminated (h : PrefixFree letters code) {stop : β} (hne : ∀ a, letters a → code a ≠ [])
    (hstop : ∀ a, letters a → (code a).head? ≠ some stop) {l l' : List α} (hl : ∀ a ∈ l, letters a) (hl' : ∀ a ∈ l', letters a)
    {r r' : List β} (heq : l.flatMap code ++ stop :: r = l'.flatMap code ++ stop :: r') : l = l' ∧ r = r' := by
  have hclash : ∀ a, letters a → ∀ s s', code a ++ s ≠ stop :: s' := by
    intro a ha s s' hbad
    cases hcode : code a with
    | nil => exact hne a ha hcode
    | cons u rest =>
      rw [hcode, List.cons_append] at hbad
      exact hstop a ha (by rw [hcode, (List.cons.inj hbad).1, List.head?_cons])
  induction l generalizing l' with
  | nil =>
    cases l' with
    | nil => exact ⟨rfl, (List.cons.inj heq).2⟩
    | cons b rest =>
      rw [List.flatMap_cons, List.append_assoc] at heq
      exact absurd heq.symm (hclash b (hl' b List.mem_cons_self) _ _)
  | cons a rest ih =>
    cases l' with
    | nil =>
      rw [List.flatMap_cons, List.append_assoc] at heq
      exact absurd heq (hclash a (hl a List.mem_cons_self) _ _)
    | cons b rest' =>
      simp only [List.flatMap_cons, List.append_assoc] at heq
      obtain ⟨rfl, hrest⟩ := h a b (hl a List.mem_cons_self) (hl' b List.mem_cons_self) _ _ heq
      obtain ⟨rfl, hr⟩ := ih (fun x hx => hl x (List.mem_cons_of_mem _ hx)) (fun x hx => hl' x (List.mem_cons_of_mem _ hx)) hrest
      exact ⟨rfl, hr⟩

/-- **Words in a row can be told apart.** -/
theorem flatMap_injective (h : PrefixFree letters code) (hne : ∀ a, letters a → code a ≠ []) {l l' : List α}
    (hl : ∀ a ∈ l, letters a) (hl' : ∀ a ∈ l', letters a) (heq : l.flatMap code = l'.flatMap code) : l = l' := by
  induction l generalizing l' with
  | nil =>
    cases l' with
    | nil => rfl
    | cons b rest =>
      rw [List.flatMap_nil, List.flatMap_cons] at heq
      exact absurd (List.append_eq_nil_iff.mp heq.symm).1 (hne b (hl' b List.mem_cons_self))
  | cons a rest ih =>
    cases l' with
    | nil =>
      rw [List.flatMap_nil, List.flatMap_cons] at heq
      exact absurd (List.append_eq_nil_iff.mp heq).1 (hne a (hl a List.mem_cons_self))
    | cons b rest' =>
      rw [List.flatMap_cons, List.flatMap_cons] at heq
      obtain ⟨rfl, hrest⟩ := h a b (hl a List.mem_cons_self) (hl' b List.mem_cons_self) _ _ heq
      rw [ih (fun x hx => hl x (List.mem_cons_of_mem _ hx)) (fun x hx => hl' x (List.mem_cons_of_mem _ hx)) hrest]

end PrefixFree

/-! ## Lengths before bytes -/

/-- `String(n)` of a natural number, in ASCII. -/
def decimal (n : ℕ) : List UInt8 := (Nat.toDigits 10 n).map fun c => UInt8.ofNat c.toNat

/-- Bytes after their number and a colon. -/
def lengthPrefixed (bytes : List UInt8) : List UInt8 := decimal bytes.length ++ 0x3A :: bytes

theorem digit_bounds {c : Char} (h : c.isDigit = true) : 48 ≤ c.toNat ∧ c.toNat ≤ 57 := by
  simp only [Char.isDigit, Bool.and_eq_true, decide_eq_true_eq, ge_iff_le, UInt32.le_iff_toNat_le] at h
  exact h

theorem decimal_read (n : ℕ) : (decimal n).map (fun u => Char.ofNat u.toNat) = Nat.toDigits 10 n := by
  unfold decimal
  rw [List.map_map]
  refine (List.map_congr_left fun c hc => ?_).trans (List.map_id _)
  obtain ⟨hlow, hhigh⟩ := digit_bounds (Nat.isDigit_of_mem_toDigits (by decide) (by decide) hc)
  show Char.ofNat (UInt8.ofNat c.toNat).toNat = c
  rw [UInt8.toNat_ofNat_of_lt' (by have : UInt8.size = 256 := rfl; omega), Char.ofNat_toNat]

theorem decimal_injective {n m : ℕ} (h : decimal n = decimal m) : n = m := by
  have hdigits : Nat.toDigits 10 n = Nat.toDigits 10 m := by rw [← decimal_read, h, decimal_read]
  have hvalue := congrArg (fun digits => Nat.ofDigitChars 10 digits 0) hdigits
  simpa only [Nat.ofDigitChars_ten_toDigits] using hvalue

theorem colon_notMem_decimal (n : ℕ) : (0x3A : UInt8) ∉ decimal n := by
  intro h
  obtain ⟨c, hc, hcolon⟩ := List.mem_map.mp h
  obtain ⟨hlow, hhigh⟩ := digit_bounds (Nat.isDigit_of_mem_toDigits (by decide) (by decide) hc)
  have hnat := congrArg UInt8.toNat hcolon
  rw [UInt8.toNat_ofNat_of_lt' (by have : UInt8.size = 256 := rfl; omega)] at hnat
  have hcolon' : (0x3A : UInt8).toNat = 58 := rfl
  omega

theorem split_mark {mark : β} {l l' r r' : List β} (hl : mark ∉ l) (hl' : mark ∉ l') (h : l ++ mark :: r = l' ++ mark :: r') :
    l = l' ∧ r = r' := by
  have hcode : PrefixFree (fun b => b ≠ mark) fun b : β => [b] := by
    intro a b _ _ r r' heq
    exact List.cons.inj heq
  have hstop : ∀ a : β, a ≠ mark → [a].head? ≠ some mark := fun a ha heq => ha (Option.some.inj heq)
  refine hcode.terminated (fun a _ => List.cons_ne_nil a []) hstop (fun a ha heq => hl (heq ▸ ha))
    (fun a ha heq => hl' (heq ▸ ha)) ?_
  simpa only [List.flatMap_singleton'] using h

/-- **Bytes after their length show where they end.** -/
theorem prefixFree_lengthPrefixed {letters : List UInt8 → Prop} : PrefixFree letters lengthPrefixed := by
  intro a b _ _ r r' heq
  simp only [lengthPrefixed, List.append_assoc, List.cons_append] at heq
  obtain ⟨hlength, hrest⟩ := split_mark (colon_notMem_decimal _) (colon_notMem_decimal _) heq
  exact List.append_inj hrest (decimal_injective hlength)

end PrefixCode
