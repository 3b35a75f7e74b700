/-
Module: Plumego.Proofs.AuditChain
Purpose: What two audit logs that pass the check and end in the same hash have in common: the
  hashed texts of their entries, and the recorded fields exactly if the texts of the fields have
  the same lengths; and calls of `Log` beside each other, which keep the check from failing as long
  as they take turns in the chain and the log is not cut.
Trusted boundary: none
Main exports: scheme, verify_eq_none_iff, sameRecords_iff_aligned, Moves, Chained, verify_of_inTurn
-/
import Plumego.Lib.Chain
import Plumego.PubSub.Audit

namespace Plumego.PubSub.Audit

open Plumego.Go
open Plumego.Lib
open Plumego.Lib.HashChain

section Chains

variable {Data : Type} (texts : AuditTexts Data)

/-- The entries of the log as a hash chain. -/
def scheme : Scheme (AuditEntry Data) Bytes where
  previous := AuditEntry.previousHash
  digest := AuditEntry.hash
  compute := calculateHash texts

theorem verifyLoop_eq_none_iff {prevHash : Bytes} {entries : List (AuditEntry Data)} :
    verifyLoop texts prevHash entries = none ↔ Linked (scheme texts) prevHash entries := by
  induction entries generalizing prevHash with
  | nil => exact ⟨fun _ => trivial, fun _ => rfl⟩
  | cons entry entries ih =>
    rw [verifyLoop, Linked, ← ih]
    by_cases previous : entry.previousHash = prevHash
    · by_cases digest : entry.hash = calculateHash texts entry
      · simp [previous, digest, scheme]
      · simp [previous, digest, scheme]
    · simp [previous, scheme]

/-- `Verify` accepts exactly the chains that start without a previous hash. -/
theorem verify_eq_none_iff {config : AuditConfig} (integrity : config.verifyIntegrity = true)
    {entries : List (AuditEntry Data)} :
    verify texts config entries = none ↔ Linked (scheme texts) [] entries := by
  rw [verify, integrity, ← verifyLoop_eq_none_iff]
  simp

/-! ## Two logs -/

/-- The fields that an entry records, apart from its data. -/
structure SameRecord (entry other : AuditEntry Data) : Prop where
  sequence : entry.sequence = other.sequence
  timestamp : entry.timestamp = other.timestamp
  operation : entry.operation = other.operation
  topic : entry.topic = other.topic
  actor : entry.actor = other.actor
  source : entry.source = other.source
  messageID : entry.messageID = other.messageID
  success : entry.success = other.success
  error : entry.error = other.error

/-- The texts of these fields. -/
def recordTexts (entry : AuditEntry Data) : List Bytes :=
  [decimalDigits entry.sequence, texts.timestampText entry.timestamp, entry.operation, entry.topic,
    entry.actor, entry.source, entry.messageID, boolText entry.success, entry.error]

/-- The texts of the recorded fields have the same lengths. -/
def Aligned (entry other : AuditEntry Data) : Prop :=
  (recordTexts texts entry).map List.length = (recordTexts texts other).map List.length

theorem boolText_injective {first second : Bool} (same : boolText first = boolText second) :
    first = second := by
  revert first second
  decide

theorem SameRecord.aligned {entry other : AuditEntry Data} (same : SameRecord entry other) :
    Aligned texts entry other := by
  rw [Aligned, recordTexts, recordTexts, same.sequence, same.timestamp, same.operation, same.topic,
    same.actor, same.source, same.messageID, same.success, same.error]

/-- Aligned entries with the same hashed text have the same records. -/
theorem sameRecord_of_hashedText_eq
    (timestamps : ∀ first second, texts.timestampText first = texts.timestampText second →
      first = second)
    {entry other : AuditEntry Data} (aligned : Aligned texts entry other)
    (alike : entry.previousHash.length = other.previousHash.length)
    (sameText : hashedText texts entry = hashedText texts other) :
    SameRecord entry other ∧ entry.previousHash = other.previousHash := by
  simp only [Aligned, recordTexts, List.map_cons, List.map_nil, List.cons.injEq, and_true] at aligned
  obtain ⟨sequence, timestamp, operation, topic, actor, source, messageID, success, error⟩ := aligned
  -- The previous hash, the error and the flag are cut off at the end, and the fields before the
  -- data at the front.
  obtain ⟨text, previousEq⟩ := List.append_inj' sameText alike
  obtain ⟨text, errorEq⟩ := List.append_inj' text error
  obtain ⟨text, successEq⟩ := List.append_inj' text success
  obtain ⟨text, -⟩ := List.append_inj text (by simp only [List.length_append]; omega)
  obtain ⟨text, messageIDEq⟩ := List.append_inj' text messageID
  obtain ⟨text, sourceEq⟩ := List.append_inj' text source
  obtain ⟨text, actorEq⟩ := List.append_inj' text actor
  obtain ⟨text, topicEq⟩ := List.append_inj' text topic
  obtain ⟨text, operationEq⟩ := List.append_inj' text operation
  obtain ⟨sequenceEq, timestampEq⟩ := List.append_inj' text timestamp
  exact ⟨⟨decimalDigits_injective sequenceEq, timestamps _ _ timestampEq, operationEq, topicEq,
    actorEq, sourceEq, messageIDEq, boolText_injective successEq, errorEq⟩, previousEq⟩

/-- Two logs that pass the check and whose last entries have the same hash record the same,
entry by entry, if and only if the texts of their fields have the same lengths, entry by
entry. -/
theorem sameRecords_iff_aligned {config : AuditConfig} (integrity : config.verifyIntegrity = true)
    {entries others : List (AuditEntry Data)} {last otherLast : AuditEntry Data}
    (verified : verify texts config (entries ++ [last]) = none)
    (otherVerified : verify texts config (others ++ [otherLast]) = none)
    (sameHash : last.hash = otherLast.hash)
    (injective : ∀ entry ∈ entries ++ [last], ∀ other ∈ others ++ [otherLast],
      texts.sha256 (hashedText texts entry) = texts.sha256 (hashedText texts other) →
        hashedText texts entry = hashedText texts other)
    (size : ∀ text, (texts.sha256 text).length = 32)
    (timestamps : ∀ first second, texts.timestampText first = texts.timestampText second →
      first = second) :
    List.Forall₂ SameRecord (entries ++ [last]) (others ++ [otherLast]) ↔
      List.Forall₂ (Aligned texts) (entries ++ [last]) (others ++ [otherLast]) := by
  refine ⟨fun same => same.imp fun entry other sameRecord => sameRecord.aligned texts, ?_⟩
  intro aligned
  have sameLast : lastDigest (scheme texts) [] (entries ++ [last]) =
      lastDigest (scheme texts) [] (others ++ [otherLast]) := by
    rw [lastDigest_concat, lastDigest_concat]
    exact sameHash
  have alikeComputed : ∀ entry other : AuditEntry Data,
      (calculateHash texts entry).length = (calculateHash texts other).length := by
    intro entry other
    rw [calculateHash, calculateHash, length_hexEncodeToString, length_hexEncodeToString, size,
      size]
  refine (forall₂_of_lastDigest_eq (scheme texts) (fun first second => first.length = second.length)
    (fun entry _ other _ => alikeComputed entry other) ?_ rfl
    ((verify_eq_none_iff texts integrity).mp verified)
    ((verify_eq_none_iff texts integrity).mp otherVerified) aligned sameLast).1
  intro entry member other otherMember isAligned alike sameComputed
  apply sameRecord_of_hashedText_eq texts timestamps isAligned alike
  exact injective entry member other otherMember (hexEncodeToString_injective sameComputed)

end Chains

/-- Texts for sample logs, with the first bytes of a text in the place of its hash. -/
def sampleTexts : AuditTexts Unit where
  sha256 text := (text ++ List.replicate 32 0).take 32
  timestampText := formatInt
  dataText := fun _ => ascii "map[]"

theorem size_sampleTexts (text : Bytes) : (sampleTexts.sha256 text).length = 32 := by
  simp [sampleTexts]

/-- A log that keeps its hashes. -/
def sampleConfig : AuditConfig := ⟨true, [], []⟩

/-- An entry about a topic and an actor, in its place of the chain. -/
def sampleEntry (sequence : Nat) (topic actor : Bytes) (lastHash : Bytes) : AuditEntry Unit :=
  chain sampleTexts lastHash
    (newEntry sequence ⟨ascii "publish", topic, actor, [], (), true, none⟩ 0)

/-- The first of two sample entries. -/
def sampleFirst : AuditEntry Unit := sampleEntry 1 (ascii "a") (ascii "b") []

/-- The second, chained to the first. -/
def sampleSecond : AuditEntry Unit := sampleEntry 2 (ascii "a") (ascii "b") sampleFirst.hash

theorem sameRecords_iff_aligned_sample :
    verify sampleTexts sampleConfig [sampleFirst, sampleSecond] = none ∧
      (List.Forall₂ SameRecord [sampleFirst, sampleSecond] [sampleFirst, sampleSecond] ↔
        List.Forall₂ (Aligned sampleTexts) [sampleFirst, sampleSecond]
          [sampleFirst, sampleSecond]) := by
  have verified : verify sampleTexts sampleConfig [sampleFirst, sampleSecond] = none := by
    decide +kernel
  have injective : ∀ entry ∈ [sampleFirst, sampleSecond],
      ∀ other ∈ [sampleFirst, sampleSecond],
        sampleTexts.sha256 (hashedText sampleTexts entry) =
          sampleTexts.sha256 (hashedText sampleTexts other) →
        hashedText sampleTexts entry = hashedText sampleTexts other := by decide +kernel
  exact ⟨verified, @sameRecords_iff_aligned Unit sampleTexts sampleConfig rfl [sampleFirst]
    [sampleFirst] sampleSecond sampleSecond verified verified rfl injective size_sampleTexts
    fun _ _ => formatInt_injective⟩

/-- An entry about the topic `a` and the actor `bc`. -/
def movedFirst : AuditEntry Unit := sampleEntry 1 (ascii "a") (ascii "bc") []

/-- An entry about the topic `ab` and the actor `c`. -/
def movedSecond : AuditEntry Unit := sampleEntry 1 (ascii "ab") (ascii "c") []

/-- Moving a byte from the actor to the topic of an entry changes neither the check nor the
hash. -/
theorem not_sameRecords_moved :
    verify sampleTexts sampleConfig [movedFirst] = none ∧
      verify sampleTexts sampleConfig [movedSecond] = none ∧
      movedFirst.hash = movedSecond.hash ∧
      hashedText sampleTexts movedFirst = hashedText sampleTexts movedSecond ∧
      ¬ List.Forall₂ SameRecord [movedFirst] [movedSecond] := by
  refine ⟨by decide +kernel, by decide +kernel, by decide +kernel, by decide +kernel, ?_⟩
  intro same
  cases same with
  | cons sameRecord _ => exact absurd sameRecord.topic (by decide)

/-! ## Calls of `Log` beside each other -/

section Runs

variable {Data : Type} (texts : AuditTexts Data) (config : AuditConfig)

/-- The steps of the calls, with the states they lead to. -/
inductive Moves (logger : Logger Data) : Action Data → Logger Data → Prop where
  | returned (request : Request Data) (now : Time) : Moves logger (.log request now) logger
  | numbered (integrity : config.verifyIntegrity = true) (request : Request Data) (now : Time) :
      Moves logger (.log request now)
        { logger with
          nextSequence := logger.nextSequence + 1
          numbered := logger.numbered ++ [newEntry (logger.nextSequence + 1) request now] }
  | unhashed (integrity : config.verifyIntegrity = false) (request : Request Data) (now : Time) :
      Moves logger (.log request now)
        { logger with
          nextSequence := logger.nextSequence + 1
          written := logger.written ++ [newEntry (logger.nextSequence + 1) request now] }
  | readHash {call : Nat} {entry : AuditEntry Data} (found : logger.numbered[call]? = some entry) :
      Moves logger (.readHash call)
        { logger with
          numbered := logger.numbered.eraseIdx call
          hashed := logger.hashed ++ [chain texts logger.lastHash entry] }
  | writeHash {call : Nat} {entry : AuditEntry Data} (found : logger.hashed[call]? = some entry) :
      Moves logger (.writeHash call)
        { logger with
          hashed := logger.hashed.eraseIdx call
          lastHash := entry.hash
          written := logger.written ++ [entry] }
  | store {call : Nat} {entry : AuditEntry Data} (found : logger.written[call]? = some entry) :
      Moves logger (.store call)
        { logger with
          written := logger.written.eraseIdx call
          entries := storeInMemory logger.entries entry }
  | close : Moves logger .close { logger with closed := true }

variable {texts config}

theorem moves_of_step {logger next : Logger Data} {action : Action Data} {out : Option GoError}
    (stepEq : (machine texts config).step logger action = some (next, out)) :
    Moves texts config logger action next := by
  cases action with
  | log request now =>
    simp only [machine, step] at stepEq
    split at stepEq
    · cases stepEq
      exact .returned request now
    · split at stepEq
      · cases stepEq
        exact .returned request now
      · split at stepEq
        · next integrity =>
            cases stepEq
            exact .numbered integrity request now
        · next off =>
            cases stepEq
            exact .unhashed (by simpa using off) request now
  | readHash call =>
    simp only [machine, step] at stepEq
    split at stepEq
    · cases stepEq
    · next entry found =>
        cases stepEq
        exact .readHash found
  | writeHash call =>
    simp only [machine, step] at stepEq
    split at stepEq
    · cases stepEq
    · next entry found =>
        cases stepEq
        exact .writeHash found
  | store call =>
    simp only [machine, step] at stepEq
    split at stepEq
    · cases stepEq
    · next entry found =>
        cases stepEq
        exact .store found
  | close =>
    cases stepEq
    exact .close

/-- A call reads the last hash while no other is between reading and writing it; entries are
stored in the order in which their hashes were written, while there is room for one more. -/
def InTurn (logger : Logger Data) : Action Data → Prop
  | .readHash _ => logger.hashed = []
  | .store call => call = 0 ∧ logger.entries.length < maxInMemory
  | _ => True

instance decidableInTurn [DecidableEq Data] (logger : Logger Data) (action : Action Data) :
    Decidable (InTurn logger action) := by
  cases action <;> dsimp only [InTurn] <;> infer_instance

variable (texts) in
/-- The stored entries and those still to be stored form a chain up to the last hash. -/
structure Chained (logger : Logger Data) : Prop where
  linked : Linked (scheme texts) [] (logger.entries ++ logger.written)
  last : logger.lastHash = lastDigest (scheme texts) [] (logger.entries ++ logger.written)
  hashed : ∀ entry ∈ logger.hashed,
    entry.previousHash = logger.lastHash ∧ entry.hash = calculateHash texts entry
  single : logger.hashed.length ≤ 1

theorem chained_initial : Chained texts Logger.initial where
  linked := trivial
  last := rfl
  hashed := nofun
  single := Nat.zero_le 1

/-- An entry with its place in the chain carries the right hash. -/
theorem hash_chain (lastHash : Bytes) (entry : AuditEntry Data) :
    (chain texts lastHash entry).previousHash = lastHash ∧
      (chain texts lastHash entry).hash = calculateHash texts (chain texts lastHash entry) :=
  ⟨rfl, rfl⟩

theorem Chained.step {logger next : Logger Data} {action : Action Data}
    (integrity : config.verifyIntegrity = true) (chained : Chained texts logger)
    (inTurn : InTurn logger action) (moves : Moves texts config logger action next) :
    Chained texts next := by
  cases moves with
  | returned request now => exact chained
  | numbered _ request now => exact ⟨chained.linked, chained.last, chained.hashed, chained.single⟩
  | unhashed off request now =>
    rw [integrity] at off
    cases off
  | @readHash call entry found =>
    have alone : logger.hashed ++ [chain texts logger.lastHash entry] =
        [chain texts logger.lastHash entry] := by
      rw [show logger.hashed = [] from inTurn, List.nil_append]
    refine ⟨chained.linked, chained.last, ?_, ?_⟩
    · intro other member
      rw [alone, List.mem_singleton] at member
      rw [member]
      exact hash_chain logger.lastHash entry
    · rw [alone]
      exact Nat.le_refl 1
  | @writeHash call entry found =>
    have member := List.mem_of_getElem? found
    obtain ⟨previous, hash⟩ := chained.hashed entry member
    have none : logger.hashed.eraseIdx call = [] := by
      have length := List.length_eraseIdx_of_lt (List.getElem?_eq_some_iff.mp found).1
      have single := chained.single
      exact List.eq_nil_of_length_eq_zero (by omega)
    refine ⟨?_, ?_, ?_, ?_⟩
    · rw [← List.append_assoc]
      exact linked_concat _ chained.linked (previous.trans chained.last) hash
    · rw [← List.append_assoc, lastDigest_concat]
      rfl
    · rw [none]
      exact nofun
    · rw [none]
      exact Nat.zero_le 1
  | @store call entry found =>
    obtain ⟨rfl, room⟩ := inTurn
    have kept : storeInMemory logger.entries entry = logger.entries ++ [entry] := by
      refine if_neg ?_
      rw [List.length_append, List.length_singleton]
      omega
    have same : logger.entries ++ [entry] ++ logger.written.eraseIdx 0 =
        logger.entries ++ logger.written := by
      cases writtenEq : logger.written with
      | nil => simp [writtenEq] at found
      | cons head tail =>
        rw [writtenEq, List.getElem?_cons_zero, Option.some.injEq] at found
        rw [found, List.append_assoc]
        rfl
    refine ⟨?_, ?_, chained.hashed, chained.single⟩
    · rw [kept, same]
      exact chained.linked
    · rw [kept, same]
      exact chained.last
  | close => exact ⟨chained.linked, chained.last, chained.hashed, chained.single⟩

/-- In every run whose calls take turns and whose log is not cut, the check of the log never
fails. -/
theorem verify_of_inTurn (integrity : config.verifyIntegrity = true) {actions : List (Action Data)}
    (inTurn : (machine texts config).Meets InTurn Logger.initial actions) :
    ∀ logger, (machine texts config).Reaches Logger.initial actions logger →
      verify texts config logger.entries = none := by
  intro logger reached
  have chained : Chained texts logger :=
    Machine.reaches_invariant (fun _ _ _ _ chained meets stepEq =>
      chained.step integrity meets (moves_of_step stepEq)) chained_initial inTurn reached
  rw [verify_eq_none_iff texts integrity]
  exact ((linked_append _).mp chained.linked).1

end Runs

/-- The request of the sample calls. -/
def sampleRequest : Request Unit := ⟨ascii "publish", ascii "t", [], [], (), true, none⟩

/-- Two calls, one after the other. -/
def sequentialActions : List (Action Unit) :=
  [.log sampleRequest 0, .readHash 0, .writeHash 0, .store 0,
    .log sampleRequest 0, .readHash 0, .writeHash 0, .store 0]

theorem verify_sequentialActions :
    (machine sampleTexts sampleConfig).Meets InTurn Logger.initial sequentialActions ∧
      ∀ logger, (machine sampleTexts sampleConfig).Reaches Logger.initial sequentialActions logger →
        verify sampleTexts sampleConfig logger.entries = none := by
  have inTurn : (machine sampleTexts sampleConfig).Meets InTurn Logger.initial
      sequentialActions := by decide +kernel
  exact ⟨inTurn, verify_of_inTurn rfl inTurn⟩

/-- Two calls that both read the last hash before one of them writes it. -/
def racingActions : List (Action Unit) :=
  [.log sampleRequest 0, .log sampleRequest 0, .readHash 0, .readHash 0, .writeHash 0, .writeHash 0,
    .store 0, .store 0]

/-- After the two calls have returned, the check fails. -/
theorem not_verify_racingActions :
    ∃ logger, (machine sampleTexts sampleConfig).Reaches Logger.initial racingActions logger ∧
      logger.numbered = [] ∧ logger.hashed = [] ∧ logger.written = [] ∧
      verify sampleTexts sampleConfig logger.entries =
        some (.wrapf "%w: sequence %d" [.int 2] errAuditCorrupted) := by
  have final : ((machine sampleTexts sampleConfig).run Logger.initial racingActions).map
      (fun logger => (logger.numbered, logger.hashed, logger.written,
        verify sampleTexts sampleConfig logger.entries)) =
      some ([], [], [], some (.wrapf "%w: sequence %d" [.int 2] errAuditCorrupted)) := by
    decide +kernel
  obtain ⟨logger, ran, projected⟩ := Option.map_eq_some_iff.mp final
  obtain ⟨numbered, rest⟩ := Prod.mk.inj projected
  obtain ⟨hashed, rest⟩ := Prod.mk.inj rest
  obtain ⟨written, verified⟩ := Prod.mk.inj rest
  exact ⟨logger, ⟨_, List.prefix_rfl, ran⟩, numbered, hashed, written, verified⟩

end Plumego.PubSub.Audit
