import SlugBase.Egress.Address
import Mathlib.Tactic.SplitIfs
import Mathlib.Tactic.ByContra

/-!
# Splitting texts

What `split` answers on a text of one character and on the text `::`, and how the parts make the text again.

* `join_splitAt`, **`splitAt_append`**: the parts of a text between the occurrences of a character;
* `Spaced`: no two colons stand together, and none at an end; **`splitDoubleColon_append`**: such a text before `::`
  is one part.
-/

namespace SlugBase.Egress

/-! ## At a character -/

section

variable {separator : Char} {part rest text : List Char}

/-- The parts with the separator between them. -/
def join (between : List Char) : List (List Char) → List Char
  | [] => []
  | [part] => part
  | part :: parts => part ++ between ++ join between parts

theorem join_cons_cons (between part next : List Char) (parts : List (List Char)) :
    join between (part :: next :: parts) = part ++ between ++ join between (next :: parts) := rfl

theorem splitAt_nil (separator : Char) : splitAt separator [] = [[]] := rfl

theorem splitAt_cons (separator c : Char) (rest : List Char) : splitAt separator (c :: rest) =
    if c = separator then [] :: splitAt separator rest
    else match splitAt separator rest with
      | [] => [[c]]
      | part :: parts => (c :: part) :: parts := rfl

theorem splitAt_ne_nil (separator : Char) (text : List Char) : splitAt separator text ≠ [] := by
  cases text with
  | nil => simp [splitAt_nil]
  | cons c rest =>
    rw [splitAt_cons]
    split_ifs
    · simp
    · cases splitAt separator rest <;> simp

theorem splitAt_of_not_mem (h : separator ∉ part) : splitAt separator part = [part] := by
  induction part with
  | nil => rfl
  | cons c rest ih =>
    simp only [List.mem_cons, not_or] at h
    rw [splitAt_cons, if_neg (Ne.symm h.1), ih h.2]

/-- **The part before the first separator is the first part.** -/
theorem splitAt_append (h : separator ∉ part) :
    splitAt separator (part ++ separator :: rest) = part :: splitAt separator rest := by
  induction part with
  | nil => rw [List.nil_append, splitAt_cons, if_pos rfl]
  | cons c part ih =>
    simp only [List.mem_cons, not_or] at h
    rw [List.cons_append, splitAt_cons, if_neg (Ne.symm h.1), ih h.2]

/-- The parts of a text do not have the separator. -/
theorem not_mem_of_splitAt (h : part ∈ splitAt separator text) : separator ∉ part := by
  induction text generalizing part with
  | nil => simp_all [splitAt_nil]
  | cons c rest ih =>
    rw [splitAt_cons] at h
    split_ifs at h with hc
    · rcases List.mem_cons.mp h with rfl | h
      · simp
      · exact ih h
    · cases hsplit : splitAt separator rest with
      | nil => exact absurd hsplit (splitAt_ne_nil separator rest)
      | cons first parts =>
        rw [hsplit] at h ih
        rcases List.mem_cons.mp h with rfl | h
        · simp only [List.mem_cons, not_or]
          exact ⟨Ne.symm hc, ih List.mem_cons_self⟩
        · exact ih (List.mem_cons_of_mem _ h)

/-- **The parts with the separator between them are the text.** -/
theorem join_splitAt (separator : Char) (text : List Char) : join [separator] (splitAt separator text) = text := by
  induction text with
  | nil => rfl
  | cons c rest ih =>
    rw [splitAt_cons]
    cases hsplit : splitAt separator rest with
    | nil => exact absurd hsplit (splitAt_ne_nil separator rest)
    | cons first parts =>
      rw [hsplit] at ih
      split_ifs with hc
      · rw [join_cons_cons, ih, hc]
        rfl
      · cases parts with
        | nil => simp [join] at ih ⊢; exact ih
        | cons next parts =>
          rw [join_cons_cons] at ih ⊢
          rw [← ih]
          rfl

end

/-! ## At two colons -/

/-- No two colons stand together, and none stands at an end. -/
inductive Spaced : List Char → Prop
  | part {part : List Char} : part ≠ [] → ':' ∉ part → Spaced part
  | cons {part rest : List Char} : part ≠ [] → ':' ∉ part → Spaced rest → Spaced (part ++ ':' :: rest)

theorem splitDoubleColon_twoColons (rest : List Char) :
    splitDoubleColon (':' :: ':' :: rest) = [] :: splitDoubleColon rest := rfl

theorem splitDoubleColon_step {c : Char} {text : List Char} (h : ∀ rest, c = ':' → text = ':' :: rest → False) :
    splitDoubleColon (c :: text) =
      match splitDoubleColon text with
      | [] => [[c]]
      | part :: parts => (c :: part) :: parts :=
  splitDoubleColon.eq_3 c text h

theorem splitDoubleColon_ne_nil (text : List Char) : splitDoubleColon text ≠ [] := by
  unfold splitDoubleColon
  split
  · simp
  · simp
  · cases h : splitDoubleColon _ <;> simp

theorem splitDoubleColon_cons {c : Char} (hc : c ≠ ':') (text first : List Char) (parts : List (List Char))
    (h : splitDoubleColon text = first :: parts) : splitDoubleColon (c :: text) = (c :: first) :: parts := by
  rw [splitDoubleColon_step fun rest heq => absurd heq hc, h]

theorem splitDoubleColon_colon {d : Char} (hd : d ≠ ':') (text first : List Char) (parts : List (List Char))
    (h : splitDoubleColon (d :: text) = first :: parts) :
    splitDoubleColon (':' :: d :: text) = (':' :: first) :: parts := by
  rw [splitDoubleColon_step fun rest _ heq => absurd (List.cons.inj heq).1 hd, h]

theorem splitDoubleColon_append_of_not_mem {part : List Char} (hpart : ':' ∉ part) {text first : List Char}
    {parts : List (List Char)} (h : splitDoubleColon text = first :: parts) :
    splitDoubleColon (part ++ text) = (part ++ first) :: parts := by
  induction part with
  | nil => exact h
  | cons c part ih =>
    simp only [List.mem_cons, not_or] at hpart
    exact splitDoubleColon_cons (Ne.symm hpart.1) _ _ _ (ih hpart.2)

theorem Spaced.head {text : List Char} (h : Spaced text) : ∃ c rest, text = c :: rest ∧ c ≠ ':' := by
  have hpart {part : List Char} (hne : part ≠ []) (hcolon : ':' ∉ part) : ∃ c rest, part = c :: rest ∧ c ≠ ':' := by
    cases part with
    | nil => exact absurd rfl hne
    | cons c rest =>
      simp only [List.mem_cons, not_or] at hcolon
      exact ⟨c, rest, rfl, Ne.symm hcolon.1⟩
  cases h with
  | part hne hcolon => exact hpart hne hcolon
  | cons hne hcolon _ =>
    obtain ⟨c, rest, rfl, hc⟩ := hpart hne hcolon
    exact ⟨c, _, rfl, hc⟩

theorem Spaced.splitDoubleColon_append {text : List Char} (h : Spaced text) {after first : List Char}
    {parts : List (List Char)}
    (hfirst : ∀ part, ':' ∉ part → Egress.splitDoubleColon (part ++ after) = (part ++ first) :: parts) :
    Egress.splitDoubleColon (text ++ after) = (text ++ first) :: parts := by
  induction h with
  | part hne hcolon => exact hfirst _ hcolon
  | @cons part rest hne hcolon hrest ih =>
    obtain ⟨c, tail, rfl, hc⟩ := hrest.head
    rw [List.append_assoc, List.append_assoc, List.cons_append, List.cons_append]
    exact splitDoubleColon_append_of_not_mem hcolon (splitDoubleColon_colon hc _ _ _ ih)

/-- **A spaced text is one part.** -/
theorem Spaced.splitDoubleColon {text : List Char} (h : Spaced text) : Egress.splitDoubleColon text = [text] := by
  have hself : Egress.splitDoubleColon (text ++ []) = [text ++ []] :=
    h.splitDoubleColon_append fun part hcolon => splitDoubleColon_append_of_not_mem hcolon rfl
  simpa using hself

/-- **A spaced text before two colons is the first part.** -/
theorem Spaced.splitDoubleColon_gap {text : List Char} (h : Spaced text) (rest : List Char) :
    Egress.splitDoubleColon (text ++ ':' :: ':' :: rest) = text :: Egress.splitDoubleColon rest := by
  have hself := h.splitDoubleColon_append fun part hcolon =>
    splitDoubleColon_append_of_not_mem hcolon (splitDoubleColon_twoColons rest)
  simpa using hself

/-- **The parts with two colons between them are the text.** -/
theorem join_splitDoubleColon (text : List Char) : join [':', ':'] (splitDoubleColon text) = text := by
  induction text using splitDoubleColon.induct with
  | case1 rest ih =>
    rw [splitDoubleColon_twoColons]
    cases hsplit : splitDoubleColon rest with
    | nil => exact absurd hsplit (splitDoubleColon_ne_nil rest)
    | cons first parts =>
      rw [hsplit] at ih
      rw [join_cons_cons, ih]
      rfl
  | case2 => rfl
  | case3 c rest hgap hnil => exact absurd hnil (splitDoubleColon_ne_nil rest)
  | case4 c rest hgap first parts hsplit ih =>
    rw [splitDoubleColon_step hgap, hsplit]
    rw [hsplit] at ih
    dsimp only
    cases parts with
    | nil => exact congrArg (c :: ·) ih
    | cons next parts =>
      rw [join_cons_cons] at ih ⊢
      rw [← ih]
      rfl

end SlugBase.Egress
