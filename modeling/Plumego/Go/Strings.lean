/-
Module: Plumego.Go.Strings
Purpose: Go strings as byte sequences, the `strings` functions the development
  uses, and errors built by `errors.New` and `fmt.Errorf`.
Trusted boundary: the definitions follow the documented behaviour of the Go
  standard library on bytes.
Main exports: Bytes, ascii, trimLeft, trimRight, trimSides, split, join,
  contains, GoError
-/
import Mathlib.Data.List.DropRight
import Mathlib.Data.List.Infix

namespace Plumego.Go

/-- A Go `string` or `[]byte`: any finite byte sequence, valid UTF-8 or not. -/
abbrev Bytes := List UInt8

instance Bytes.lawfulBEq : LawfulBEq Bytes := inferInstance

/-- The bytes of an ASCII literal of the source. -/
def ascii (literal : String) : Bytes :=
  literal.toList.map fun character => character.toNat.toUInt8

/-- `strings.TrimLeft(s, c)` for a one-byte cutset. -/
def trimLeft (cut : UInt8) (text : Bytes) : Bytes :=
  text.dropWhile (· == cut)

/-- `strings.TrimRight(s, c)` for a one-byte cutset. -/
def trimRight (cut : UInt8) (text : Bytes) : Bytes :=
  text.rdropWhile (· == cut)

/-- `strings.Trim(s, c)` for a one-byte cutset. -/
def trimSides (cut : UInt8) (text : Bytes) : Bytes :=
  trimRight cut (trimLeft cut text)

/-- `strings.Split(s, sep)` for a one-byte separator; the empty string has one
empty part. -/
def split (separator : UInt8) (text : Bytes) : List Bytes :=
  text.splitOn separator

/-- `strings.Join(parts, sep)` for a one-byte separator. -/
def join (separator : UInt8) (parts : List Bytes) : Bytes :=
  [separator].intercalate parts

/-- `strings.Contains(text, part)`. -/
def contains (text part : Bytes) : Bool :=
  text.tails.any part.isPrefixOf

/-- An argument of a formatted error. -/
inductive ErrorArg where
  | bytes (value : Bytes)
  | int (value : Int)
deriving DecidableEq, Repr

/-- A Go error: a sentinel made by `errors.New`, a formatted text, or a
formatted text whose `%w` verb wraps another error, or two. The format is the
source's text, kept with its arguments and not rendered. -/
inductive GoError where
  | new (text : String)
  | errorf (format : String) (args : List ErrorArg)
  | wrapf (format : String) (args : List ErrorArg) (wrapped : GoError)
  | wrapBoth (format : String) (args : List ErrorArg) (first second : GoError)
deriving DecidableEq, Repr

/-- A sequence of fallible steps succeeds if each of them does. -/
theorem except_bind_eq_ok {α β : Type} {first : Except GoError α} {next : α → Except GoError β}
    {result : β} :
    first >>= next = .ok result ↔ ∃ value, first = .ok value ∧ next value = .ok result := by
  cases first with
  | error failure | ok value => simp [bind, Except.bind]

/-- `errors.Is(err, target)` for a sentinel `target` made by `errors.New`. -/
def GoError.is : GoError → String → Bool
  | .new text, target => text == target
  | .errorf _ _, _ => false
  | .wrapf _ _ inner, target => inner.is target
  | .wrapBoth _ _ first second, target => first.is target || second.is target

@[simp] theorem trimLeft_nil (cut : UInt8) : trimLeft cut [] = [] := rfl

@[simp] theorem trimRight_nil (cut : UInt8) : trimRight cut [] = [] := rfl

/-- Trimming on the left stops at a byte that is not cut. -/
theorem trimLeft_head_ne {cut : UInt8} {text : Bytes} :
    (trimLeft cut text).head? ≠ some cut := by
  induction text with
  | nil => simp
  | cons byte rest ih =>
    by_cases same : byte = cut
    · subst same
      simpa [trimLeft] using ih
    · simp [trimLeft, same]

/-- Trimming on the right stops at a byte that is not cut. -/
theorem trimRight_getLast_ne {cut : UInt8} {text : Bytes} :
    (trimRight cut text).getLast? ≠ some cut := by
  intro last
  have nonempty : trimRight cut text ≠ [] := by
    intro empty
    simp [empty] at last
  have stop := List.rdropWhile_last_not (· == cut) text nonempty
  rw [List.getLast?_eq_some_getLast nonempty] at last
  have hit : (trimRight cut text).getLast nonempty = cut := Option.some.inj last
  exact stop (beq_iff_eq.mpr hit)

/-- Text that does not start with the cut byte is unchanged on the left. -/
theorem trimLeft_eq_self {cut : UInt8} {text : Bytes}
    (start : text.head? ≠ some cut) : trimLeft cut text = text := by
  cases text with
  | nil => rfl
  | cons byte rest =>
    have different : byte ≠ cut := by simpa using start
    simp [trimLeft, different]

/-- Text that does not end with the cut byte is unchanged on the right. -/
theorem trimRight_eq_self {cut : UInt8} {text : Bytes}
    (finish : text.getLast? ≠ some cut) : trimRight cut text = text := by
  apply List.rdropWhile_eq_self_iff.mpr
  intro nonempty hit
  rw [List.getLast?_eq_some_getLast nonempty] at finish
  exact finish (by simpa using hit)

/-- A suffix cut on the right keeps the first byte unless it is emptied. -/
theorem trimRight_head {cut byte : UInt8} {text : Bytes}
    (head : (trimRight cut text).head? = some byte) :
    text.head? = some byte := by
  obtain ⟨suffix, equality⟩ := List.rdropWhile_prefix (· == cut) text
  rw [← equality]
  cases trimmed : trimRight cut text with
  | nil => simp [trimmed] at head
  | cons first rest =>
    rw [trimmed] at head
    change (trimRight cut text ++ suffix).head? = some byte
    simpa [trimmed] using head

/-- A prefix cut on the left keeps the last byte unless it is emptied. -/
theorem trimLeft_getLast {cut byte : UInt8} {text : Bytes}
    (last : (trimLeft cut text).getLast? = some byte) :
    text.getLast? = some byte := by
  obtain ⟨front, equality⟩ := List.dropWhile_suffix (l := text) (· == cut)
  rw [← equality]
  rw [List.getLast?_append]
  change (Option.or (trimLeft cut text).getLast? _) = _
  simp [last]

/-- A text contains a part that stands somewhere in it. -/
theorem contains_eq_true {text part : Bytes} : contains text part = true ↔ part <:+: text := by
  rw [contains, List.any_eq_true]
  constructor
  · rintro ⟨rest, member, starts⟩
    exact (List.isPrefixOf_iff_prefix.mp starts).isInfix.trans
      ((List.mem_tails rest text).mp member).isInfix
  · rintro ⟨front, back, textEq⟩
    refine ⟨part ++ back, (List.mem_tails _ _).mpr ⟨front, ?_⟩, ?_⟩
    · rw [← List.append_assoc, textEq]
    · exact List.isPrefixOf_iff_prefix.mpr (List.prefix_append part back)

theorem contains_eq_false {text part : Bytes} :
    contains text part = false ↔ ¬ part <:+: text := by
  rw [← contains_eq_true, Bool.not_eq_true]

theorem contains_byte {text : Bytes} {byte : UInt8} : contains text [byte] = true ↔ byte ∈ text := by
  rw [contains_eq_true, List.singleton_infix_iff]

/-- Splitting after joining separator-free parts recovers them. -/
theorem split_join {separator : UInt8} {parts : List Bytes}
    (free : ∀ part ∈ parts, separator ∉ part) (nonempty : parts ≠ []) :
    split separator (join separator parts) = parts :=
  List.splitOn_intercalate separator free nonempty

/-- Joining after splitting recovers the text. -/
@[simp] theorem join_split (separator : UInt8) (text : Bytes) :
    join separator (split separator text) = text :=
  List.intercalate_splitOn separator

/-- Two parts come from a text with one separator. -/
theorem split_eq_pair {separator : UInt8} {text first last : Bytes} :
    split separator text = [first, last] ↔
      text = first ++ separator :: last ∧ separator ∉ first ∧ separator ∉ last := by
  constructor
  · intro splitEq
    have joined := join_split separator text
    rw [splitEq] at joined
    have textEq : text = first ++ separator :: last := by simpa [join] using joined.symm
    have parts : split separator first ++ split separator last = [first, last] := by
      rw [← splitEq, textEq]
      exact (List.splitOn_append_cons_self _ _).symm
    have whole : ∀ part, (split separator part).length = 1 → separator ∉ part := by
      intro part single inside
      obtain ⟨front, back, rfl⟩ := List.append_of_mem inside
      rw [show split separator (front ++ separator :: back) = split separator front ++ split separator back
        from List.splitOn_append_cons_self _ _, List.length_append] at single
      have some := List.length_pos_iff.mpr (List.splitOn_ne_nil separator front)
      have more := List.length_pos_iff.mpr (List.splitOn_ne_nil separator back)
      simp only [split] at single
      omega
    have counted := congrArg List.length parts
    rw [List.length_append] at counted
    have some := List.length_pos_iff.mpr (List.splitOn_ne_nil separator first)
    have more := List.length_pos_iff.mpr (List.splitOn_ne_nil separator last)
    simp only [split, List.length_cons, List.length_nil] at counted
    exact ⟨textEq, whole first (by simp only [split]; omega), whole last (by simp only [split]; omega)⟩
  · rintro ⟨rfl, freeFirst, freeLast⟩
    have joined : join separator [first, last] = first ++ separator :: last := by simp [join]
    rw [← joined]
    exact split_join (by simp [freeFirst, freeLast]) (by simp)

@[simp] theorem join_nil (separator : UInt8) : join separator [] = [] := by
  simp [join]

@[simp] theorem join_singleton (separator : UInt8) (part : Bytes) :
    join separator [part] = part := by
  simp [join, List.intercalate]

theorem join_cons_cons (separator : UInt8) (first second : Bytes)
    (rest : List Bytes) :
    join separator (first :: second :: rest) =
      first ++ separator :: join separator (second :: rest) := by
  simp [join, List.intercalate]

end Plumego.Go
