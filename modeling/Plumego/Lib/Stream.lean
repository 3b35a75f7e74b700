/-
Module: Plumego.Lib.Stream
Purpose: Data that is read and written piece by piece: items decoded off an input until its
  end.
Trusted boundary: none
Main exports: decodeAll, decodeAll_encoded, decodeAll_file, Reads, Frames, Reads.frames
-/
import Mathlib.Data.List.Basic

namespace Plumego.Lib

section Decoding

variable {B α β E : Type}

/-- Decode items until the decoder fails; a failure that is the end of the
input ends the sequence. Each round takes one unit of `fuel`. -/
def decodeAll (decode : List B → Except E (α × List B)) (ends : E → Bool) :
    Nat → List B → Except E (List α)
  | 0, _ => .ok []
  | fuel + 1, input =>
    match decode input with
    | .error failure => if ends failure then .ok [] else .error failure
    | .ok (item, rest) =>
      match decodeAll decode ends fuel rest with
      | .error failure => .error failure
      | .ok items => .ok (item :: items)

section Rules

variable {decode : List B → Except E (α × List B)} {ends : E → Bool}

/-- Round trip: a decoder that takes each item's encoding off the front reads
the concatenated encodings back. -/
theorem decodeAll_encoded {encode : β → List B} {read : β → α} {failure : E}
    (atEnd : decode [] = .error failure) (isEnd : ends failure = true) {items : List β}
    (takes : ∀ item ∈ items, ∀ rest, decode (encode item ++ rest) = .ok (read item, rest))
    {fuel : Nat} (enough : items.length < fuel) :
    decodeAll decode ends fuel (items.flatMap encode) = .ok (items.map read) := by
  induction items generalizing fuel with
  | nil =>
    cases fuel with
    | zero => exact absurd enough (Nat.not_lt_zero _)
    | succ fuel => simp [decodeAll, atEnd, isEnd]
  | cons item items ih =>
    cases fuel with
    | zero => exact absurd enough (Nat.not_lt_zero _)
    | succ fuel =>
      have rest := ih
        (List.forall_mem_of_forall_mem_cons takes)
        (Nat.lt_of_succ_lt_succ enough)
      rw [List.flatMap_cons, decodeAll, takes item List.mem_cons_self]
      simp only [rest, List.map_cons]

theorem length_le_flatMap {encode : β → List B} {items : List β}
    (nonempty : ∀ item ∈ items, encode item ≠ []) :
    items.length ≤ (items.flatMap encode).length := by
  induction items with
  | nil => exact Nat.le_refl _
  | cons item items ih =>
    have first := List.length_pos_iff.mpr (nonempty item List.mem_cons_self)
    have rest := ih (List.forall_mem_of_forall_mem_cons nonempty)
    rw [List.flatMap_cons, List.length_append, List.length_cons]
    omega

/-- Round trip over a whole file, with the file's length as fuel. -/
theorem decodeAll_file {encode : β → List B} {read : β → α} {failure : E}
    (atEnd : decode [] = .error failure) (isEnd : ends failure = true) {items : List β}
    (takes : ∀ item ∈ items, ∀ rest, decode (encode item ++ rest) = .ok (read item, rest))
    (nonempty : ∀ item ∈ items, encode item ≠ []) :
    decodeAll decode ends ((items.flatMap encode).length + 1) (items.flatMap encode) =
      .ok (items.map read) :=
  decodeAll_encoded atEnd isEnd takes (Nat.lt_succ_of_le (length_le_flatMap nonempty))

end Rules

/-- Decoding item after item off an input gives the items and leaves the tail. -/
inductive Reads (decode : List B → Except E (α × List B)) :
    List B → List α → List B → Prop where
  | done (tail : List B) : Reads decode tail [] tail
  | next {input rest tail : List B} {item : α} {items : List α}
      (decoded : decode input = .ok (item, rest)) (later : Reads decode rest items tail) :
      Reads decode input (item :: items) tail

/-- A piece that decodes to the item whatever follows it. -/
def Frames (decode : List B → Except E (α × List B)) (piece : List B) (item : α) : Prop :=
  ∀ more, decode (piece ++ more) = .ok (item, more)

namespace Reads

variable {decode : List B → Except E (α × List B)} {ends : E → Bool}
  {input tail : List B} {items : List α}

/-- The rounds of `decodeAll` as a reading: they end at a tail on which the decoder reports the
end of the input. -/
theorem of_decodeAll
    (consumes : ∀ input item rest, decode input = .ok (item, rest) →
      rest.length < input.length)
    {fuel : Nat} (enough : input.length < fuel)
    (result : decodeAll decode ends fuel input = .ok items) :
    ∃ tail failure, Reads decode input items tail ∧ decode tail = .error failure ∧
      ends failure = true := by
  induction fuel generalizing input items with
  | zero => exact absurd enough (Nat.not_lt_zero _)
  | succ fuel ih =>
    rw [decodeAll] at result
    cases decoded : decode input with
    | error failure =>
      simp only [decoded] at result
      split at result
      · next isEnd =>
          obtain rfl := Except.ok.inj result
          exact ⟨input, failure, .done input, decoded, isEnd⟩
      · cases result
    | ok taken =>
      obtain ⟨item, rest⟩ := taken
      simp only [decoded] at result
      have shorter := consumes input item rest decoded
      cases others : decodeAll decode ends fuel rest with
      | error failure => simp [others] at result
      | ok more =>
        simp only [others] at result
        obtain rfl := Except.ok.inj result
        obtain ⟨tail, failure, reads, stops, isEnd⟩ := ih
          (Nat.lt_of_lt_of_le shorter (Nat.le_of_lt_succ enough)) others
        exact ⟨tail, failure, .next decoded reads, stops, isEnd⟩

/-- A reading with the end of the input behind it is what `decodeAll` returns. -/
theorem decodeAll_eq {failure : E} (reads : Reads decode input items tail)
    (stops : decode tail = .error failure) (isEnd : ends failure = true)
    (consumes : ∀ input item rest, decode input = .ok (item, rest) →
      rest.length < input.length)
    {fuel : Nat} (enough : input.length < fuel) :
    decodeAll decode ends fuel input = .ok items := by
  induction reads generalizing fuel with
  | done tail =>
    cases fuel with
    | zero => exact absurd enough (Nat.not_lt_zero _)
    | succ fuel => simp [decodeAll, stops, isEnd]
  | next decoded later ih =>
    cases fuel with
    | zero => exact absurd enough (Nat.not_lt_zero _)
    | succ fuel =>
      have shorter := consumes _ _ _ decoded
      have rest := ih stops
        (Nat.lt_of_lt_of_le shorter (Nat.le_of_lt_succ enough))
      rw [decodeAll, decoded]
      simp only [rest]

/-- Two readings of one input that cannot go on are the same. -/
theorem tail_unique {others : List α} {otherTail : List B} {failure otherFailure : E}
    (reads : Reads decode input items tail) (stops : decode tail = .error failure)
    (also : Reads decode input others otherTail)
    (alsoStops : decode otherTail = .error otherFailure) : tail = otherTail := by
  induction reads generalizing others with
  | done tail =>
    cases also with
    | done => rfl
    | next decoded later => cases stops.symm.trans decoded
  | next decoded later ih =>
    cases also with
    | done => cases alsoStops.symm.trans decoded
    | next alsoDecoded alsoLater =>
      cases decoded.symm.trans alsoDecoded
      exact ih stops alsoLater

/-- Framed pieces in front of a reading are read first. -/
theorem of_frames {pieces : List (List B × α)}
    (framed : ∀ piece ∈ pieces, Frames decode piece.1 piece.2)
    (reads : Reads decode input items tail) :
    Reads decode (pieces.flatMap Prod.fst ++ input) (pieces.map Prod.snd ++ items) tail := by
  induction pieces with
  | nil => exact reads
  | cons piece pieces ih =>
    have rest := ih (List.forall_mem_of_forall_mem_cons framed)
    apply Reads.next ?_ rest
    rw [List.flatMap_cons, List.append_assoc]
    exact framed piece List.mem_cons_self _

/-- A decoder that looks at no byte beyond those it takes reads framed pieces. -/
theorem frames
    (takes : ∀ input item rest, decode input = .ok (item, rest) →
      ∃ piece, input = piece ++ rest ∧ Frames decode piece item)
    (reads : Reads decode input items tail) :
    ∃ pieces : List (List B × α), input = pieces.flatMap Prod.fst ++ tail ∧
      items = pieces.map Prod.snd ∧ ∀ piece ∈ pieces, Frames decode piece.1 piece.2 := by
  induction reads with
  | done tail => exact ⟨[], rfl, rfl, List.forall_mem_nil _⟩
  | @next input rest tail item items decoded later ih =>
    obtain ⟨piece, inputEq, framed⟩ := takes _ _ _ decoded
    obtain ⟨pieces, restEq, itemsEq, others⟩ := ih
    refine ⟨(piece, item) :: pieces, ?_, ?_, ?_⟩
    · rw [inputEq, restEq, List.flatMap_cons, List.append_assoc]
    · rw [itemsEq, List.map_cons]
    · intro other member
      rcases List.mem_cons.mp member with rfl | inRest
      · exact framed
      · exact others other inRest

end Reads

end Decoding

end Plumego.Lib
