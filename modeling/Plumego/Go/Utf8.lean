/-
Module: Plumego.Go.Utf8
Purpose: UTF-8 as the Go standard library reads it: the width of the rune at
  the front of a string, the replacement of invalid bytes by U+FFFD, the
  trimming of Unicode white space, and splitting at it.
Trusted boundary: the accepted byte ranges and the white space runes follow
  the documented tables of `unicode/utf8` and `unicode`.
Main exports: coerceUTF8, validUTF8, validUTF8_coerceUTF8, trimSpace, runes, fields
-/
import Plumego.Go.Strings

namespace Plumego.Go

/-! ## Runes -/

/-- A continuation byte. -/
def isTail (byte : UInt8) : Bool := 0x80 ≤ byte && byte ≤ 0xBF

/-- Range of the second byte after a given first byte of a three-byte rune. -/
def secondOfThree (first second : UInt8) : Bool :=
  if first = 0xE0 then 0xA0 ≤ second && second ≤ 0xBF
  else if first = 0xED then 0x80 ≤ second && second ≤ 0x9F
  else isTail second

/-- Range of the second byte after a given first byte of a four-byte rune. -/
def secondOfFour (first second : UInt8) : Bool :=
  if first = 0xF0 then 0x90 ≤ second && second ≤ 0xBF
  else if first = 0xF4 then 0x80 ≤ second && second ≤ 0x8F
  else isTail second

/-- Width of the valid rune at the front of a string, zero when the string is
empty or starts with an invalid byte. -/
def runeWidth : Bytes → Nat
  | [] => 0
  | first :: rest =>
    if first < 0x80 then 1
    else if 0xC2 ≤ first && first ≤ 0xDF then
      match rest with
      | second :: _ => if isTail second then 2 else 0
      | [] => 0
    else if 0xE0 ≤ first && first ≤ 0xEF then
      match rest with
      | second :: third :: _ =>
        if secondOfThree first second && isTail third then 3 else 0
      | _ => 0
    else if 0xF0 ≤ first && first ≤ 0xF4 then
      match rest with
      | second :: third :: fourth :: _ =>
        if secondOfFour first second && isTail third && isTail fourth
        then 4 else 0
      | _ => 0
    else 0

/-- The UTF-8 encoding of U+FFFD. -/
def replacement : Bytes := [0xEF, 0xBF, 0xBD]

/-- The loop of `coerceUTF8` with an explicit bound on its iterations. -/
def coerceLoop : Nat → Bytes → Bytes
  | 0, text => text
  | _ + 1, [] => []
  | fuel + 1, first :: rest =>
    match runeWidth (first :: rest) with
    | 0 => replacement ++ coerceLoop fuel rest
    | width => (first :: rest).take width ++
        coerceLoop fuel ((first :: rest).drop width)

/-- Replace each byte that starts no valid rune by U+FFFD. -/
def coerceUTF8 (text : Bytes) : Bytes := coerceLoop text.length text

/-- The loop of `validUTF8`. -/
def validLoop : Nat → Bytes → Bool
  | 0, text => text.isEmpty
  | _ + 1, [] => true
  | fuel + 1, first :: rest =>
    match runeWidth (first :: rest) with
    | 0 => false
    | width => validLoop fuel ((first :: rest).drop width)

/-- `utf8.ValidString`. -/
def validUTF8 (text : Bytes) : Bool := validLoop text.length text

private theorem coerceLoop_of_valid {fuel : Nat} {text : Bytes}
    (valid : validLoop fuel text = true) : coerceLoop fuel text = text := by
  induction fuel generalizing text with
  | zero => rfl
  | succ fuel ih =>
    cases text with
    | nil => rfl
    | cons first rest =>
      simp only [validLoop] at valid
      simp only [coerceLoop]
      cases widthEq : runeWidth (first :: rest) with
      | zero => simp [widthEq] at valid
      | succ width =>
        rw [widthEq] at valid
        simp only at valid ⊢
        rw [ih valid, List.take_append_drop]

/-- Valid text is left alone. -/
theorem coerceUTF8_of_valid {text : Bytes} (valid : validUTF8 text = true) :
    coerceUTF8 text = text :=
  coerceLoop_of_valid valid

/-- The rune at the front lies within the text. -/
theorem runeWidth_le (text : Bytes) : runeWidth text ≤ text.length := by
  cases text with
  | nil => simp [runeWidth]
  | cons first rest =>
    simp only [runeWidth]
    split
    · simp
    · split
      · rcases rest with _ | ⟨second, rest⟩
        · simp
        · simp only
          split <;> simp
      · split
        · rcases rest with _ | ⟨second, _ | ⟨third, rest⟩⟩
          · simp
          · simp
          · simp only
            split <;> simp
        · split
          · rcases rest with _ | ⟨second, _ | ⟨third, _ | ⟨fourth, rest⟩⟩⟩
            · simp
            · simp
            · simp
            · simp only
              split <;> simp
          · simp

/-- What follows a rune does not change how the rune is read. -/
theorem runeWidth_take_append {text : Bytes} {width : Nat} (found : runeWidth text = width + 1)
    (more : Bytes) : runeWidth (text.take (width + 1) ++ more) = width + 1 := by
  cases text with
  | nil => simp [runeWidth] at found
  | cons first rest =>
    simp only [runeWidth] at found
    split at found
    · rename_i small
      obtain rfl : width = 0 := by omega
      simp [runeWidth, small]
    · split at found
      · cases rest with
        | nil => simp at found
        | cons second rest =>
          simp only at found
          split at found
          · obtain rfl : width = 1 := by omega
            simp [runeWidth, *]
          · omega
      · split at found
        · rcases rest with _ | ⟨second, _ | ⟨third, rest⟩⟩
          · simp at found
          · simp at found
          · simp only at found
            split at found
            · obtain rfl : width = 2 := by omega
              simp [runeWidth, *]
            · omega
        · split at found
          · rcases rest with _ | ⟨second, _ | ⟨third, _ | ⟨fourth, rest⟩⟩⟩
            · simp at found
            · simp at found
            · simp at found
            · simp only at found
              split at found
              · obtain rfl : width = 3 := by omega
                simp [runeWidth, *]
              · omega
          · omega

/-- A valid rune in front leaves the validity to the rest. -/
theorem validLoop_rune {text : Bytes} {width fuel : Nat} (found : runeWidth text = width + 1)
    (more : Bytes) :
    validLoop (fuel + 1) (text.take (width + 1) ++ more) = validLoop fuel more := by
  have stable := runeWidth_take_append found more
  have long : width + 1 ≤ text.length := found ▸ runeWidth_le text
  cases text with
  | nil => simp at long
  | cons first rest =>
    rw [List.take_succ_cons, List.cons_append] at stable ⊢
    simp only [validLoop, stable]
    congr 1
    simp at long
    simp [long]

private theorem validLoop_coerceLoop {fuel : Nat} {text : Bytes} (enough : text.length ≤ fuel)
    {bound : Nat} (within : (coerceLoop fuel text).length ≤ bound) :
    validLoop bound (coerceLoop fuel text) = true := by
  induction fuel generalizing text bound with
  | zero =>
    have empty : text = [] := List.eq_nil_of_length_eq_zero (by omega)
    subst empty
    cases bound <;> rfl
  | succ fuel ih =>
    cases text with
    | nil => cases bound <;> rfl
    | cons first rest =>
      simp only [coerceLoop] at within ⊢
      cases widthEq : runeWidth (first :: rest) with
      | zero =>
        rw [widthEq] at within
        simp only [replacement, List.length_append, List.length_cons,
          List.length_nil] at within
        obtain ⟨bound, rfl⟩ : ∃ smaller, bound = smaller + 1 := ⟨bound - 1, by omega⟩
        have replaced : runeWidth replacement = 2 + 1 := by decide
        have recursed : validLoop bound (coerceLoop fuel rest) = true :=
          ih (by simp at enough; omega) (by omega)
        exact (validLoop_rune replaced _).trans recursed
      | succ width =>
        rw [widthEq] at within
        have cut := runeWidth_le (first :: rest)
        simp only [List.length_append, List.length_take] at within
        obtain ⟨bound, rfl⟩ : ∃ smaller, bound = smaller + 1 := ⟨bound - 1, by omega⟩
        have recursed : validLoop bound
            (coerceLoop fuel ((first :: rest).drop (width + 1))) = true :=
          ih (by simp at enough ⊢; omega) (by omega)
        exact (validLoop_rune widthEq _).trans recursed

/-- Replacing the invalid bytes gives valid text. -/
theorem validUTF8_coerceUTF8 (text : Bytes) : validUTF8 (coerceUTF8 text) = true :=
  validLoop_coerceLoop (Nat.le_refl _) (Nat.le_refl _)

/-! ## White space -/

/-- The encodings of the runes for which `unicode.IsSpace` holds. -/
def whiteSpace : List Bytes :=
  [[0x09], [0x0A], [0x0B], [0x0C], [0x0D], [0x20], [0xC2, 0x85], [0xC2, 0xA0],
    [0xE1, 0x9A, 0x80], [0xE2, 0x80, 0x80], [0xE2, 0x80, 0x81],
    [0xE2, 0x80, 0x82], [0xE2, 0x80, 0x83], [0xE2, 0x80, 0x84],
    [0xE2, 0x80, 0x85], [0xE2, 0x80, 0x86], [0xE2, 0x80, 0x87],
    [0xE2, 0x80, 0x88], [0xE2, 0x80, 0x89], [0xE2, 0x80, 0x8A],
    [0xE2, 0x80, 0xA8], [0xE2, 0x80, 0xA9], [0xE2, 0x80, 0xAF],
    [0xE2, 0x81, 0x9F], [0xE3, 0x80, 0x80]]

/-- Strip words of a table from the front of a text, at most `fuel` times. -/
def stripWords (words : List Bytes) : Nat → Bytes → Bytes
  | 0, text => text
  | fuel + 1, text =>
    match words.find? (·.isPrefixOf text) with
    | none => text
    | some word => stripWords words fuel (text.drop word.length)

/-- The left half of `strings.TrimSpace`. -/
def trimSpaceLeft (text : Bytes) : Bytes :=
  stripWords whiteSpace text.length text

/-- The right half of `strings.TrimSpace`: a string ends in a white space rune
exactly when it ends in one of the encodings. -/
def trimSpaceRight (text : Bytes) : Bytes :=
  (stripWords (whiteSpace.map List.reverse) text.length text.reverse).reverse

/-- `strings.TrimSpace`. -/
def trimSpace (text : Bytes) : Bytes := trimSpaceRight (trimSpaceLeft text)

/-- No word of the table starts the text. -/
def Stripped (words : List Bytes) (text : Bytes) : Prop :=
  ∀ word ∈ words, ¬ word <+: text

theorem stripWords_of_stripped {words : List Bytes} {text : Bytes}
    (stripped : Stripped words text) (fuel : Nat) :
    stripWords words fuel text = text := by
  cases fuel with
  | zero => rfl
  | succ fuel =>
    have absent : words.find? (·.isPrefixOf text) = none := by
      simpa [List.find?_eq_none, Stripped] using stripped
    simp [stripWords, absent]

/-! ## Runes and words -/

/-- The loop of `runes` with an explicit bound on its iterations. -/
def runesLoop : Nat → Bytes → List Bytes
  | 0, _ => []
  | _ + 1, [] => []
  | fuel + 1, first :: rest =>
    match runeWidth (first :: rest) with
    | 0 => [first] :: runesLoop fuel rest
    | width => (first :: rest).take width :: runesLoop fuel ((first :: rest).drop width)

/-- The runes that a `range` loop finds in a string; a byte that starts no
rune stands alone. -/
def runes (text : Bytes) : List Bytes := runesLoop text.length text

/-- The loop of `fields`: the word read so far and the runes to come. -/
def fieldsLoop : Bytes → List Bytes → List Bytes
  | current, [] => if current = [] then [] else [current]
  | current, rune :: rest =>
    if whiteSpace.contains rune then
      if current = [] then fieldsLoop [] rest else current :: fieldsLoop [] rest
    else fieldsLoop (current ++ rune) rest

/-- `strings.Fields`. -/
def fields (text : Bytes) : List Bytes := fieldsLoop [] (runes text)

end Plumego.Go
