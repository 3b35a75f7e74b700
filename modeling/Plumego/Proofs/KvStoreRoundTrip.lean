/-
Module: Plumego.Proofs.KvStoreRoundTrip
Purpose: When loading the state file of the embedded key-value store gives back
  the map that was persisted.
Trusted boundary: `StateCodec.Lawful` states what is assumed of `encoding/json`.
Main exports: StateCodec.Lawful, SameContents, load_persisted_iff,
  persisted_key_replaced
-/
import Plumego.Proofs.KvStoreCalls

namespace Plumego.KvStore

open Go Lib

/-- `encoding/json` on the state: the entries come back under their keys, with
each invalid byte of a key replaced by U+FFFD. Keys that become equal share one
of their entries. -/
structure StateCodec.Lawful (codec : StateCodec) : Prop where
  reads : ∀ data raw, codec.marshal data = .ok raw → ∃ state, codec.unmarshal raw = .ok state ∧
    (∀ key item, state.lookup key = some item →
      ∃ original, data.lookup original = some item ∧ coerceUTF8 original = key) ∧
    ∀ key item, data.lookup key = some item → ∃ other, state.lookup (coerceUTF8 key) = some other

/-- Two maps have the same keys with the same values and expiry instants. -/
def SameContents (data loaded : Data) : Prop :=
  ∀ key, (loaded.lookup key).map (fun item => (item.value, item.expireAt)) =
    (data.lookup key).map fun item => (item.value, item.expireAt)

/-- The entry `load` keeps for one that it reads. -/
def resized (key : Bytes) (item : Entry) : Entry :=
  { item with size := entrySize key item.value }

/-! ## Loading -/

theorem loadEntries_ok {entries : List (Bytes × Entry)}
    (valid : ∀ pair ∈ entries, validateKey pair.1 = none) (data : Data) :
    ∃ loaded, loadEntries entries data = .ok loaded := by
  induction entries generalizing data with
  | nil => exact ⟨data, rfl⟩
  | cons pair rest ih =>
    obtain ⟨key, item⟩ := pair
    have keyValid : validateKey key = none := valid (key, item) List.mem_cons_self
    rw [loadEntries, keyValid]
    exact ih (List.forall_mem_of_forall_mem_cons valid) _

/-- Loading distinct keys adds exactly their entries. -/
theorem loadEntries_lookup {entries : List (Bytes × Entry)} {data loaded : Data}
    (distinct : (entries.map Prod.fst).Nodup)
    (loadedEq : loadEntries entries data = .ok loaded) :
    (∀ key item, (key, item) ∈ entries → loaded.lookup key = some (resized key item)) ∧
      ∀ key, key ∉ entries.map Prod.fst → loaded.lookup key = data.lookup key := by
  induction entries generalizing data with
  | nil =>
    rw [loadEntries, Except.ok.injEq] at loadedEq
    subst loadedEq
    exact ⟨fun key item member => absurd member List.not_mem_nil, fun key _ => rfl⟩
  | cons pair rest ih =>
    obtain ⟨first, firstItem⟩ := pair
    rw [List.map_cons, List.nodup_cons] at distinct
    rw [loadEntries] at loadedEq
    cases keyValid : validateKey first with
    | some failure =>
      rw [keyValid] at loadedEq
      cases loadedEq
    | none =>
      rw [keyValid] at loadedEq
      obtain ⟨listed, unlisted⟩ := ih distinct.2 loadedEq
      constructor
      · intro key item member
        rcases List.mem_cons.mp member with same | later
        · obtain ⟨rfl, rfl⟩ := Prod.mk.inj same
          rw [unlisted key distinct.1, AList.lookup_insert]
          rfl
        · exact listed key item later
      · intro key notListed
        rw [List.map_cons, List.mem_cons, not_or] at notListed
        rw [unlisted key notListed.2, AList.lookup_insert_ne notListed.1]

/-- A successful load gives the decoded entries with their sizes counted
again. -/
theorem load_lookup {codec : StateCodec} {raw : Bytes} {order : MapOrder Entry}
    {state loaded : Data} (decoded : codec.unmarshal raw = .ok state)
    (loadedEq : load codec (some raw) order = .ok loaded) (key : Bytes) :
    loaded.lookup key = (state.lookup key).map (resized key) := by
  rw [load, decoded] at loadedEq
  have sameKeys : ((order.list state).map Prod.fst).Perm ((pairs state).map Prod.fst) :=
    (order.perm state).map Prod.fst
  have distinct : ((order.list state).map Prod.fst).Nodup :=
    sameKeys.nodup_iff.mpr (nodup_pairs_keys state)
  obtain ⟨listed, unlisted⟩ := loadEntries_lookup distinct loadedEq
  cases found : state.lookup key with
  | some item =>
    exact listed key item ((order.perm state).mem_iff.mpr (mem_pairs.mpr found))
  | none =>
    have absent : key ∉ (order.list state).map Prod.fst := by
      intro member
      obtain ⟨⟨other, item⟩, inList, rfl⟩ := List.mem_map.mp member
      have stored := mem_pairs.mp ((order.perm state).mem_iff.mp inList)
      rw [found] at stored
      cases stored
    rw [unlisted key absent]
    rfl

theorem persistState_marshals {codec : StateCodec} {data : Data} {file : Option Bytes}
    {raw : Bytes} (written : Store.persistState codec data file none = (some raw, none)) :
    codec.marshal data = .ok raw := by
  rw [Store.persistState] at written
  cases encoded : codec.marshal data with
  | error failure =>
    rw [encoded] at written
    cases (Prod.mk.inj written).2
  | ok bytes =>
    rw [encoded] at written
    rw [Option.some.inj (Prod.mk.inj written).1]

/-! ## The round trip -/

/-- Loading what `persistState` wrote gives back the same keys with the same
values and expiry instants exactly if all keys are valid UTF-8. -/
theorem load_persisted_iff {codec : StateCodec} (lawful : codec.Lawful) {data : Data}
    {file : Option Bytes} {raw : Bytes} (order : MapOrder Entry)
    (valid : ∀ key ∈ data, validateKey key = none)
    (written : Store.persistState codec data file none = (some raw, none)) :
    (∃ loaded, load codec (some raw) order = .ok loaded ∧ SameContents data loaded) ↔
      ∀ key ∈ data, validUTF8 key = true := by
  obtain ⟨state, decoded, back, forth⟩ :=
    lawful.reads data raw (persistState_marshals written)
  constructor
  · rintro ⟨loaded, loadedEq, same⟩ key member
    obtain ⟨item, found⟩ := Option.isSome_iff_exists.mp (AList.lookup_isSome.mpr member)
    have shown := same key
    rw [found, load_lookup decoded loadedEq key] at shown
    cases stored : state.lookup key with
    | none =>
      rw [stored] at shown
      cases shown
    | some other =>
      -- every key of the decoded state is a coerced key, hence valid
      obtain ⟨original, _, coerced⟩ := back key other stored
      rw [← coerced]
      exact validUTF8_coerceUTF8 original
  · intro allValid
    have sameLookup : ∀ key, state.lookup key = data.lookup key := by
      intro key
      cases stored : state.lookup key with
      | some item =>
        obtain ⟨original, found, coerced⟩ := back key item stored
        have member : original ∈ data := AList.lookup_isSome.mp (by rw [found]; rfl)
        rw [coerceUTF8_of_valid (allValid original member)] at coerced
        rw [← coerced, found]
      | none =>
        cases found : data.lookup key with
        | none => rfl
        | some item =>
          have member : key ∈ data := AList.lookup_isSome.mp (by rw [found]; rfl)
          obtain ⟨other, kept⟩ := forth key item found
          rw [coerceUTF8_of_valid (allValid key member), stored] at kept
          cases kept
    have keysValid : ∀ pair ∈ order.list state, validateKey pair.1 = none := by
      rintro ⟨key, item⟩ inList
      have stored := mem_pairs.mp ((order.perm state).mem_iff.mp inList)
      rw [sameLookup key] at stored
      exact valid key (AList.lookup_isSome.mp (by rw [stored]; rfl))
    obtain ⟨loaded, loadedOk⟩ := loadEntries_ok keysValid ∅
    have loadedEq : load codec (some raw) order = .ok loaded := by
      rw [load, decoded]
      exact loadedOk
    refine ⟨loaded, loadedEq, fun key => ?_⟩
    rw [load_lookup decoded loadedEq key, sameLookup key, Option.map_map]
    rfl

theorem sampleCodec_lawful : sampleCodec.Lawful := by
  constructor
  intro data raw encoded
  simp only [sampleCodec] at encoded ⊢
  split at encoded
  · rename_i dataEq
    rw [Except.ok.injEq] at encoded
    subst encoded
    subst dataEq
    have unchanged : coerceUTF8 (ascii "a") = ascii "a" := by decide
    refine ⟨_, if_pos rfl, ?_, ?_⟩
    · intro key item found
      by_cases same : key = ascii "a"
      · subst same
        exact ⟨ascii "a", found, unchanged⟩
      · rw [AList.lookup_insert_ne same] at found
        cases found
    · intro key item found
      by_cases same : key = ascii "a"
      · subst same
        exact ⟨item, by rwa [unchanged]⟩
      · rw [AList.lookup_insert_ne same] at found
        cases found
  · cases encoded

/-- The state of the sample run is loaded back whole. -/
theorem load_persisted_sample :
    ∃ loaded, load sampleCodec (some sampleFile) (listedOrder Entry) = .ok loaded ∧
      SameContents ((∅ : Data).insert (ascii "a") sampleEntry) loaded := by
  have only : ∀ key ∈ (∅ : Data).insert (ascii "a") sampleEntry, key = ascii "a" := by
    intro key member
    rcases (AList.mem_insert _).mp member with same | inEmpty
    · exact same
    · exact absurd inEmpty (AList.notMem_empty key)
  have written : Store.persistState sampleCodec ((∅ : Data).insert (ascii "a") sampleEntry)
      none none = (some sampleFile, none) := by
    decide +kernel
  refine (load_persisted_iff sampleCodec_lawful (listedOrder Entry) ?_ written).mpr ?_
  · intro key member
    rw [only key member]
    decide
  · intro key member
    rw [only key member]
    decide

/-- The file `json.Marshal` makes of the sample entry under the key of the one
byte 0xFF. -/
def replacedFile : Bytes := ascii
  ("\x7b\"entries\":\x7b\"\\ufffd\":\x7b\"value\":\"dg==\"," ++
    "\"expire_at\":\"0001-01-01T00:00:00Z\"," ++
    "\"updated_at\":\"1970-01-01T00:00:00Z\",\"size\":66\x7d\x7d\x7d")

/-- `encoding/json` on that state and that file. -/
def replacingCodec : StateCodec where
  marshal := fun data =>
    if data = (∅ : Data).insert [0xFF] sampleEntry then .ok replacedFile
    else .error (.new "another state")
  unmarshal := fun raw =>
    if raw = replacedFile then .ok ((∅ : Data).insert [0xEF, 0xBF, 0xBD] sampleEntry)
    else .error (.new "another file")

/-- A valid key that is not UTF-8 is set, and comes back as another key. -/
theorem persisted_key_replaced :
    let opened := Store.after replacingCodec (fun _ => 0) none
      [.reopen { dataDir := ascii "data" } (listedOrder Entry)]
    let written := opened.apply replacingCodec (fun _ => 0)
      (.set background [0xFF] (ascii "v") 0 (listedOrder Entry) none)
    validateKey [0xFF] = none ∧ written.2 = none ∧
      written.1.data = (∅ : Data).insert [0xFF] sampleEntry ∧
      load replacingCodec written.1.file (listedOrder Entry) =
        .ok ((∅ : Data).insert [0xEF, 0xBF, 0xBD] { sampleEntry with size := 68 }) := by
  decide +kernel

end Plumego.KvStore
