import CacheHierarchy.Text.Blank
import CacheHierarchy.Text.Hex
import CacheHierarchy.Text.Numeral
import Mathlib.Data.List.Forall2
import Mathlib.Data.Nat.Digits.Defs

/-!
# The value of a hexadecimal numeral

A numeral has a value without reference to how it is read: each of its digits has one, and the
number is what these are to base sixteen (`IsNumeral`). Reading finds that value if it fits in a
word, and finds no other (`readDigits_eq_ok_iff`, `readHex_dropHexMark_eq_ok_iff`).
What is printed in base sixteen is a numeral of the number printed, whatever the case of its letters
and the number of zeros in front (`IsNumeral.of_hexDigits`).
-/

namespace CacheHierarchy.Text

variable {digits text : List Char} {values : List Nat} {n : Nat}

/-- `c` is, in either case, the digit for `d` in base sixteen. -/
def IsHexDigit (c : Char) (d : Nat) : Prop := d < 16 ∧ c.toLower = d.digitChar

/-- `digits` are digits of `n` in base sixteen, the most significant first. -/
def IsNumeral (digits : List Char) (n : Nat) : Prop :=
  digits ≠ [] ∧
    ∃ values, List.Forall₂ IsHexDigit digits values ∧ Nat.ofDigits 16 values.reverse = n

/-- `text` is a numeral of `n` that may have a plus sign in front. -/
def IsSignedNumeral (text : List Char) (n : Nat) : Prop :=
  ∃ sign ∈ [[], ['+']], ∃ digits, text = sign ++ digits ∧ IsNumeral digits n

/-- What may stand in front of a numeral to say that it is hexadecimal. -/
def hexMarks : List (List Char) := [[], ['0', 'x'], ['0', 'X']]

/-- `text` is a numeral of `n` that may have a plus sign, behind a mark or none. -/
def IsMarkedNumeral (text : List Char) (n : Nat) : Prop :=
  ∃ mark ∈ hexMarks, ∃ rest, text = mark ++ rest ∧ IsSignedNumeral rest n

/-! ### Case

Only the first 128 characters have letters with a counterpart in the other case. What is said of
these is decided one by one. -/

theorem toLower_of_le {c : Char} (h : 128 ≤ c.toNat) : c.toLower = c := by
  unfold Char.toLower
  split
  · next hupper =>
    have hlast : c.toNat ≤ 90 := UInt32.le_iff_toNat_le.1 hupper.2
    omega
  · rfl

theorem forall_char_of_lt {P : Char → Prop} (hfirst : ∀ k < 128, P (Char.ofNat k)) {c : Char}
    (h : c.toNat < 128) : P c := by
  simpa using hfirst c.toNat h

theorem isBlank_toLower (c : Char) : isBlank c.toLower = isBlank c := by
  rcases lt_or_ge c.toNat 128 with h | h
  · exact forall_char_of_lt (P := fun c => isBlank c.toLower = isBlank c) (by decide +kernel) h
  · rw [toLower_of_le h]

/-! ### One digit -/

theorem hexDigit?_of_le {c : Char} (h : 128 ≤ c.toNat) : hexDigit? c = none := by
  have hbeyond : ∀ last : Char, last.toNat < 128 → ¬ c ≤ last := fun last hlast hle =>
    absurd (show c.toNat ≤ last.toNat from hle) (by omega)
  simp [hexDigit?, hbeyond '9' (by decide), hbeyond 'f' (by decide), hbeyond 'F' (by decide)]

theorem hexDigit?_lt {c : Char} : ∀ d ∈ hexDigit? c, d < 16 := by
  rcases lt_or_ge c.toNat 128 with h | h
  · exact forall_char_of_lt (P := fun c => ∀ d ∈ hexDigit? c, d < 16) (by decide +kernel) h
  · simp [hexDigit?_of_le h]

theorem hexDigit?_eq_some_iff {c : Char} {d : Nat} : hexDigit? c = some d ↔ IsHexDigit c d := by
  by_cases hd : d < 16
  · simp only [IsHexDigit, hd, true_and]
    rcases lt_or_ge c.toNat 128 with h | h
    · exact forall_char_of_lt
        (P := fun c => ∀ d < 16, hexDigit? c = some d ↔ c.toLower = d.digitChar)
        (by decide +kernel) h d hd
    · have hsmall : d.digitChar.toNat < 128 :=
        (by decide : ∀ d < 16, d.digitChar.toNat < 128) d hd
      simp only [hexDigit?_of_le h, toLower_of_le h, reduceCtorEq, false_iff]
      rintro rfl
      omega
  · simpa [IsHexDigit, hd] using fun hc => hd (hexDigit?_lt d hc)

/-! ### Runs of digits -/

def numberBehind (read : Nat) (values : List Nat) : Nat :=
  values.foldl (fun read d => 16 * read + d) read

@[simp] theorem numberBehind_nil (read : Nat) : numberBehind read [] = read := rfl

@[simp] theorem numberBehind_cons (read d : Nat) (values : List Nat) :
    numberBehind read (d :: values) = numberBehind (16 * read + d) values := rfl

@[simp] theorem numberBehind_append (read : Nat) (front back : List Nat) :
    numberBehind read (front ++ back) = numberBehind (numberBehind read front) back := by
  simp [numberBehind]

@[simp] theorem numberBehind_zeros (zeros : Nat) :
    numberBehind 0 (List.replicate zeros 0) = 0 := by
  induction zeros with
  | zero => rfl
  | succ zeros ih => simp [List.replicate_succ, ih]

theorem le_numberBehind (read : Nat) (values : List Nat) : read ≤ numberBehind read values := by
  induction values generalizing read with
  | nil => simp
  | cons d values ih => exact le_trans (by omega) (ih (16 * read + d))

theorem ofDigits_reverse (values : List Nat) :
    Nat.ofDigits 16 values.reverse = numberBehind 0 values := by
  simp [numberBehind, Nat.ofDigits_eq_foldr, List.foldr_reverse, Nat.add_comm]

/-- Digits are read behind those already read as long as the number fits in a word. -/
theorem readDigits_eq_ok_iff {read : Nat} (hread : read < wordLimit) :
    readDigits read digits = .ok n ↔
      n < wordLimit ∧
        ∃ values, List.Forall₂ IsHexDigit digits values ∧ numberBehind read values = n := by
  induction digits generalizing read with
  | nil =>
    have hfits : read = n → n < wordLimit := fun h => h ▸ hread
    simpa [readDigits] using hfits
  | cons c digits ih =>
    rw [readDigits]
    cases hc : hexDigit? c with
    | none =>
      have hno : ∀ e, ¬ IsHexDigit c e := fun e he => by
        simp [hexDigit?_eq_some_iff.2 he] at hc
      simp [List.forall₂_cons_left_iff, hno]
    | some d =>
      have hone : ∀ e, IsHexDigit c e ↔ d = e := fun e => by
        rw [← hexDigit?_eq_some_iff, hc, Option.some.injEq]
      by_cases hfits : 16 * read + d < wordLimit
      · simp [hfits, ih hfits, List.forall₂_cons_left_iff, hone]
      · -- What is too large for a word stays so, whatever digits follow.
        simp only [hfits, if_false, reduceCtorEq, false_iff, List.forall₂_cons_left_iff, hone]
        rintro ⟨hn, _, ⟨_, values, rfl, -, rfl⟩, rfl⟩
        have := le_numberBehind (16 * read + d) values
        rw [numberBehind_cons] at hn
        omega

theorem IsNumeral.isHexDigit (h : IsNumeral digits n) {c : Char} (hc : c ∈ digits) :
    ∃ d, IsHexDigit c d := by
  obtain ⟨-, values, hvalues, -⟩ := h
  induction hvalues with
  | nil => simp at hc
  | cons hd _ ih =>
    rcases List.mem_cons.1 hc with rfl | hc
    · exact ⟨_, hd⟩
    · exact ih hc

theorem IsNumeral.not_mem (h : IsNumeral digits n) {c : Char} (hc : hexDigit? c = none) :
    c ∉ digits := fun hmem => by
  obtain ⟨d, hd⟩ := h.isHexDigit hmem
  simp [hexDigit?_eq_some_iff.2 hd] at hc

theorem readDigits_eq_ok_iff_isNumeral (hne : digits ≠ []) :
    readDigits 0 digits = .ok n ↔ n < wordLimit ∧ IsNumeral digits n := by
  simp [readDigits_eq_ok_iff (show 0 < wordLimit by decide), IsNumeral, hne, ofDigits_reverse]

/-! ### Signs and marks -/

theorem isSignedNumeral_iff :
    IsSignedNumeral text n ↔
      IsNumeral text n ∨ ∃ digits, text = '+' :: digits ∧ IsNumeral digits n := by
  simp [IsSignedNumeral]

theorem isMarkedNumeral_iff :
    IsMarkedNumeral text n ↔
      IsSignedNumeral text n ∨ (∃ rest, text = '0' :: 'x' :: rest ∧ IsSignedNumeral rest n) ∨
        ∃ rest, text = '0' :: 'X' :: rest ∧ IsSignedNumeral rest n := by
  simp [IsMarkedNumeral, hexMarks]

theorem isSignedNumeral_plus : IsSignedNumeral ('+' :: digits) n ↔ IsNumeral digits n := by
  have hplus : ¬ IsNumeral ('+' :: digits) n := fun h => h.not_mem (c := '+') (by decide) (by simp)
  simp [isSignedNumeral_iff, hplus]

theorem isSignedNumeral_of_ne_plus (h : ∀ digits, text ≠ '+' :: digits) :
    IsSignedNumeral text n ↔ IsNumeral text n := by
  simp [isSignedNumeral_iff, h]

theorem readHex_eq_ok_iff : readHex text = .ok n ↔ n < wordLimit ∧ IsSignedNumeral text n := by
  fun_cases readHex text with
  | case1 => simp [isSignedNumeral_iff, IsNumeral]
  | case2 => simp [isSignedNumeral_plus, IsNumeral]
  | case3 digits hne => rw [isSignedNumeral_plus, readDigits_eq_ok_iff_isNumeral hne]
  | case4 text hnil _ hplus =>
    rw [isSignedNumeral_of_ne_plus hplus, readDigits_eq_ok_iff_isNumeral hnil]

/-- Behind the first character of a mark there is no digit. -/
theorem not_isSignedNumeral_of_mark {c : Char} (hc : hexDigit? c = none) (rest : List Char) :
    ¬ IsSignedNumeral ('0' :: c :: rest) n := by
  rw [isSignedNumeral_of_ne_plus (by simp)]
  exact fun h => h.not_mem hc (by simp)

theorem readHex_dropHexMark_eq_ok_iff :
    readHex (dropHexMark text) = .ok n ↔ n < wordLimit ∧ IsMarkedNumeral text n := by
  rw [readHex_eq_ok_iff]
  fun_cases dropHexMark text with
  | case1 rest => simp [isMarkedNumeral_iff, not_isSignedNumeral_of_mark (c := 'x') (by decide)]
  | case2 rest => simp [isMarkedNumeral_iff, not_isSignedNumeral_of_mark (c := 'X') (by decide)]
  | case3 text hx hX =>
    have hx : ∀ rest, text ≠ '0' :: 'x' :: rest := hx
    have hX : ∀ rest, text ≠ '0' :: 'X' :: rest := hX
    simp [isMarkedNumeral_iff, hx, hX]

/-! ### Printing -/

theorem forall₂_isHexDigit_iff :
    List.Forall₂ IsHexDigit digits values ↔
      (∀ d ∈ values, d < 16) ∧ digits.map Char.toLower = values.map Nat.digitChar := by
  induction digits generalizing values with
  | nil => cases values <;> simp
  | cons c digits ih =>
    cases values with
    | nil => simp
    | cons d values => simp [ih, IsHexDigit, and_assoc, and_left_comm]

theorem exists_values_toDigits (n : Nat) :
    ∃ values, (∀ d ∈ values, d < 16) ∧ Nat.toDigits 16 n = values.map Nat.digitChar ∧
      values ≠ [] ∧ numberBehind 0 values = n := by
  induction n using Nat.strongRecOn with
  | ind n ih =>
    rcases lt_or_ge n 16 with h | h
    · exact ⟨[n], by simp [h, Nat.toDigits_of_lt_base h]⟩
    · obtain ⟨values, hlt, hdigits, -, hnumber⟩ := ih (n / 16) (by omega)
      refine ⟨values ++ [n % 16], ?_, ?_, by simp, ?_⟩
      · simpa [or_imp, forall_and] using ⟨hlt, Nat.mod_lt n (by decide)⟩
      · simp [Nat.toDigits_of_base_le (by decide) h, hdigits]
      · simp [hnumber]
        omega

theorem IsNumeral.of_hexDigits {zeros : Nat}
    (h : digits.map Char.toLower = List.replicate zeros '0' ++ (hexDigits n).toList) :
    IsNumeral digits n := by
  obtain ⟨values, hlt, hdigits, hne, hnumber⟩ := exists_values_toDigits n
  rw [hexDigits, String.toList_ofList, hdigits] at h
  refine ⟨?_, List.replicate zeros 0 ++ values, forall₂_isHexDigit_iff.2 ⟨?_, ?_⟩, ?_⟩
  · rintro rfl
    simp [hne] at h
  · simpa [or_imp, forall_and] using hlt
  · simpa [Nat.digitChar] using h
  · rw [ofDigits_reverse, numberBehind_append, numberBehind_zeros, hnumber]

end CacheHierarchy.Text
