import Mathlib.Data.List.Basic
import Mathlib.Data.List.TakeWhile
import SparseLoop.Json.Spelling

/-!
# What is spelled can be read

Each text and each integer is what its spelling denotes: `decode?` inverts
`encode`, and `natural?` and `integer?` invert the decimal digits.

A code of a character is never half of a surrogate pair, so the codes of a
spelled text are paired with nothing.
-/

namespace SparseLoop

namespace Json.Spelling

/-! ## Texts -/

theorem hexValue?_hexDigit {value : Nat} (small : value < 16) :
    hexValue? (hexDigit value) = some value := by
  have all : ∀ value < 16, hexValue? (hexDigit value) = some value := by
    decide
  exact all value small

/-- An escape of one letter has the code of its character. -/
theorem codes?_letter {letter character : Char}
    (escapes : escaped? letter = some character) (rest : List Char) :
    codes? ('\\' :: letter :: rest) =
      (codes? rest).map (character.toNat :: ·) := by
  have apart : letter ≠ 'u' := by
    rintro rfl
    cases escapes
  cases found : codes? rest <;> simp [codes?, apart, escapes, found]

/-- The codes of a spelled character are its code. -/
theorem codes?_encodeCharacter (character : Char) (rest : List Char) :
    codes? (encodeCharacter character ++ rest) =
      (codes? rest).map (character.toNat :: ·) := by
  unfold encodeCharacter
  split_ifs with quote backslash backspace feed newline turn tab control
  · rw [quote]
    exact codes?_letter rfl rest
  · rw [backslash]
    exact codes?_letter rfl rest
  · rw [backspace]
    exact codes?_letter rfl rest
  · rw [feed]
    exact codes?_letter rfl rest
  · rw [newline]
    exact codes?_letter rfl rest
  · rw [turn]
    exact codes?_letter rfl rest
  · rw [tab]
    exact codes?_letter rfl rest
  · have zero : hexValue? '0' = some 0 := by decide
    have high := hexValue?_hexDigit
      (show character.toNat / 16 < 16 by omega)
    have low := hexValue?_hexDigit (show character.toNat % 16 < 16 by omega)
    have joined : character.toNat / 16 * 16 + character.toNat % 16 =
        character.toNat := Nat.div_add_mod' _ _
    cases found : codes? rest <;>
      simp [codes?, zero, high, low, joined, found]
  · cases found : codes? rest <;> simp [codes?, backslash, found]

theorem codes?_encode (text : List Char) :
    codes? (encode text) = some (text.map Char.toNat) := by
  induction text with
  | nil => rfl
  | cons character rest ih =>
    rw [encode, List.flatMap_cons, codes?_encodeCharacter]
    rw [encode] at ih
    rw [ih]
    rfl

theorem not_surrogate (character : Char) :
    isHighSurrogate character.toNat = false ∧
      isLowSurrogate character.toNat = false := by
  have valid : character.toNat.isValidChar := character.valid
  simp only [isHighSurrogate, isLowSurrogate, Nat.isValidChar] at valid ⊢
  simp
  omega

theorem pair?_map_toNat (text : List Char) :
    pair? (text.map Char.toNat) = some text := by
  induction text with
  | nil => rfl
  | cons character rest ih =>
    obtain ⟨high, low⟩ := not_surrogate character
    cases rest with
    | nil => simp [pair?, high, low]
    | cons second others =>
      rw [List.map_cons] at ih
      simp [pair?, high, low, ih]

/-- A text is what its spelling denotes. -/
@[simp]
theorem decode?_encode (text : List Char) :
    decode? (encode text) = some text := by
  rw [decode?, codes?_encode]
  exact pair?_map_toNat text

/-! ## Integers -/

/-- The digits of a number. -/
def digits (value : Nat) : List Char :=
  Nat.toDigits 10 value

theorem toList_toString (value : Nat) :
    (toString value).toList = digits value :=
  Nat.toList_repr

theorem digitsValue_digits (value : Nat) :
    digitsValue (digits value) = value := by
  have folded : digitsValue (digits value) =
      Nat.ofDigitChars 10 (digits value) 0 := by
    rw [Nat.ofDigitChars_eq_foldl, digitsValue]
    simp only [Nat.mul_comm]
  rw [folded]
  exact Nat.ofDigitChars_ten_toDigits

theorem isDigit_of_mem_digits {value : Nat} {character : Char}
    (member : character ∈ digits value) : character.isDigit = true :=
  Nat.isDigit_of_mem_toDigits (by decide) (by decide) member

theorem digits_injective {value other : Nat}
    (same : digits value = digits other) : value = other := by
  rw [← digitsValue_digits value, same, digitsValue_digits]

/-- A number ends where a character that is no digit begins the rest. -/
theorem digits_append_injective {value other : Nat} {mark : Char}
    {rest others : List Char} (ends : mark.isDigit = false)
    (same : digits value ++ mark :: rest = digits other ++ mark :: others) :
    value = other ∧ rest = others := by
  have front : ∀ (number : Nat) (tail : List Char),
      (digits number ++ mark :: tail).takeWhile Char.isDigit =
        digits number := by
    intro number tail
    rw [List.takeWhile_append_of_pos fun _ => isDigit_of_mem_digits,
      List.takeWhile_cons_of_neg (Bool.eq_false_iff.mp ends), List.append_nil]
  have equal : value = other := by
    apply digits_injective
    rw [← front value rest, same, front]
  subst equal
  exact ⟨rfl, (List.cons.inj (List.append_cancel_left same)).2⟩

theorem digits_ne_nil (value : Nat) : digits value ≠ [] :=
  Nat.toDigits_ne_nil

/-- Only the digits of zero begin with a zero. -/
theorem digits_ne_zero_cons {value : Nat} (positive : 0 < value)
    (rest : List Char) : digits value ≠ '0' :: rest := by
  induction value using Nat.strongRecOn generalizing rest with
  | ind value ih =>
    rw [digits, Nat.toDigits_eq_if (by decide)]
    split
    · next small =>
      have all : ∀ value < 10, 0 < value → value.digitChar ≠ '0' := by decide
      intro same
      exact all value small positive (List.cons.inj same).1
    · next large =>
      intro same
      cases front : Nat.toDigits 10 (value / 10) with
      | nil => exact Nat.toDigits_ne_nil front
      | cons first others =>
        rw [front, List.cons_append] at same
        rw [(List.cons.inj same).1] at front
        exact ih (value / 10) (by omega) (by omega) others front

/-- A natural number is what its digits denote. -/
@[simp]
theorem natural?_digits (value : Nat) :
    natural? (digits value) = some value := by
  have valid : (digits value).all Char.isDigit = true :=
    List.all_eq_true.mpr fun _ member => isDigit_of_mem_digits member
  rw [natural?, if_pos valid, digitsValue_digits]
  · exact digits_ne_nil value
  · intro first rest zero
    rcases Nat.eq_zero_or_pos value with rfl | positive
    · cases zero
    · exact digits_ne_zero_cons positive _ zero

/-- A natural number has no sign. -/
theorem digits_ne_minus_cons (value : Nat) (rest : List Char) :
    digits value ≠ '-' :: rest := by
  intro signed
  have minus : '-' ∈ digits value := by simp [signed]
  exact absurd (isDigit_of_mem_digits minus) (by decide)

/-- Digits need no escapes. -/
theorem encode_digits (value : Nat) :
    encode (digits value) = digits value := by
  have plain : ∀ character ∈ digits value,
      encodeCharacter character = [character] := by
    intro character member
    have digit : 48 ≤ character.toNat ∧ character.toNat ≤ 57 :=
      Char.isDigit_iff_toNat.mp (isDigit_of_mem_digits member)
    have apart (other : Char)
        (outside : other.toNat < 48 ∨ 57 < other.toNat) :
        character ≠ other := by
      rintro rfl
      omega
    have printable : ¬ character.toNat < 32 := by omega
    simp [encodeCharacter, apart, printable]
  rw [encode, List.flatMap_congr plain]
  simp

/-- The spelling of an integer. -/
theorem toList_toString_int (value : Int) :
    (toString value).toList =
      if value < 0 then '-' :: digits value.natAbs
      else digits value.natAbs := by
  cases value with
  | ofNat magnitude =>
    rw [if_neg (by simp)]
    exact toList_toString magnitude
  | negSucc magnitude =>
    rw [if_pos (Int.negSucc_lt_zero magnitude)]
    show ("-" ++ Nat.repr (magnitude + 1)).toList = _
    rw [String.toList_append, Nat.toList_repr]
    rfl

/-- An integer is what its spelling denotes. -/
@[simp]
theorem integer?_toString (value : Int) :
    integer? (toString value).toList = some value := by
  rw [toList_toString_int]
  split
  · next negative =>
    obtain ⟨magnitude, rfl⟩ := Int.eq_negSucc_of_lt_zero negative
    rw [integer?]
    simp
  · next positive =>
    obtain ⟨magnitude, rfl⟩ :=
      Int.eq_ofNat_of_zero_le (Int.not_lt.mp positive)
    rw [integer?, Int.natAbs_natCast, natural?_digits]
    · rfl
    · intro rest signed
      exact digits_ne_minus_cons _ rest signed

/-- The literal of a number is made of digits after an optional sign. -/
theorem isNumber_toString_int (value : Int) :
    isNumber (toString value).toList = true := by
  have taken (magnitude : Nat) :
      (digits magnitude).takeWhile Char.isDigit = digits magnitude :=
    List.takeWhile_eq_self_iff.mpr fun _ member =>
      isDigit_of_mem_digits member
  have dropped (magnitude : Nat) :
      (digits magnitude).dropWhile Char.isDigit = [] :=
    List.dropWhile_eq_nil_iff.mpr fun _ member =>
      isDigit_of_mem_digits member
  have ended : isNumberTail [] = true := rfl
  rw [toList_toString_int]
  split
  · simp [isNumber, taken, dropped, ended]
  · rw [isNumber]
    · simp [taken, dropped, ended]
    · exact digits_ne_minus_cons _

end Json.Spelling

end SparseLoop
