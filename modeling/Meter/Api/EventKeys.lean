/-
**The keys of derived events.**

Metering records its event under the caller's key with an ending, and an amendment under the key of
what it amends, a separator and the caller's key. Callers choose their keys freely and so do those who
post events, so a key can be read in more than one way.

* `KeySource` — where a stored event comes from: posted, metered, or an amendment of one of them.
* `Derivation.Apart` — the caller's texts do not spell the separator or the ending, not even together
  with a colon or two of the separator beside them.
* `derived_key_determines_iff` — **a derived key tells what it was derived from exactly if the texts are
  apart**; `amended_twice_not_apart`: those of an amendment of an amendment never are.
* `intoAmendedEvent_determined` — so do the versions that the event store makes.
-/

import Meter.Api.Keys
import Meter.Lib.Separator

namespace Meter.Api

open Meter.Lib
open Meter.Events (Event AmendEvent Draw)

/-! ### Sources -/

/-- Where an event comes from. -/
inductive KeySource where
  /-- `POST /v1/events`, under a key of the caller. -/
  | posted (key : String)
  /-- `POST /v1/usage`. -/
  | metered (key : String)
  /-- An amendment of an event. -/
  | amended (original : KeySource) (key : String)

/-- The key that an amendment of an event with a key is recorded under. -/
def amendedKey (original key : String) : String := original ++ "::amend::" ++ key

/-- The key of an event. -/
def KeySource.eventKey : KeySource → String
  | .posted key => key
  | .metered key => Api.eventKey key
  | .amended original key => amendedKey original.eventKey key

/-- What the engine derives a key from. -/
inductive Derivation where
  | metered (key : String)
  | amended (original key : String)
  deriving DecidableEq

/-- What an event's key is derived from, if it is not the caller's own. -/
def KeySource.derivation : KeySource → Option Derivation
  | .posted _ => none
  | .metered key => some (.metered key)
  | .amended original key => some (.amended original.eventKey key)

def Derivation.eventKey : Derivation → String
  | .metered key => Api.eventKey key
  | .amended original key => amendedKey original key

theorem eventKey_of_derivation {source : KeySource} {derivation : Derivation}
    (derived : source.derivation = some derivation) : source.eventKey = derivation.eventKey := by
  cases source with
  | posted key => cases derived
  | metered key =>
    cases derived
    rfl
  | amended original key =>
    cases derived
    rfl

/-- Every derivation is one of some event. -/
theorem exists_source (derivation : Derivation) :
    ∃ source : KeySource, source.derivation = some derivation := by
  cases derivation with
  | metered key => exact ⟨.metered key, rfl⟩
  | amended original key => exact ⟨.amended (.posted original) key, rfl⟩

/-- **The versions that the store makes** have the keys and ids of their sources. -/
theorem intoAmendedEvent_source {idempotentEventId : OrgId → String → EventId} {original : Event}
    {source : KeySource} (isKey : original.idempotencyKey = source.eventKey) (req : AmendEvent)
    (draw : Draw) :
    (req.intoAmendedEvent idempotentEventId original draw).idempotencyKey =
        (KeySource.amended source (req.idempotencyKey.getD draw.version.toString)).eventKey ∧
      (req.intoAmendedEvent idempotentEventId original draw).id = idempotentEventId original.orgId
        (KeySource.amended source (req.idempotencyKey.getD draw.version.toString)).eventKey := by
  rw [KeySource.eventKey, ← isKey]
  exact ⟨rfl, rfl⟩

/-! ### Reading a key -/

/-- A text occurs in another one. -/
def Occurs (piece text : String) : Prop := piece.toList <:+: text.toList

/-- A text ends with another one. -/
def Ends (ending text : String) : Prop := ending.toList <:+ text.toList

instance (piece text : String) : Decidable (Occurs piece text) :=
  inferInstanceAs (Decidable (_ <:+: _))

instance (ending text : String) : Decidable (Ends ending text) :=
  inferInstanceAs (Decidable (_ <:+ _))

/-- The caller's texts do not spell the separator or the ending. -/
def Derivation.Apart : Derivation → Prop
  | .metered key => ¬ Occurs "::amend::" (key ++ "::")
  | .amended original key => ¬ Occurs "::amend::" (original ++ "::") ∧
      ¬ Occurs "::amend::" ("::" ++ key) ∧ ¬ Ends "::event" ("::" ++ key)

/-- The separator meets itself in two colons. -/
theorem meets_amend : Meets "::amend::".toList "::amend::".toList "::".toList :=
  .of_pieces (by decide) (by decide) (by decide) (by decide)

/-- So it meets the ending of a metered key. -/
theorem meets_event : Meets "::amend::".toList "::event".toList "::".toList :=
  .of_pieces (by decide) (by decide) (by decide) (by decide)

theorem amendedKey_eq {original original' key key' : String} :
    amendedKey original' key' = amendedKey original key ↔
      original'.toList ++ ("::amend::".toList ++ key'.toList) =
        original.toList ++ ("::amend::".toList ++ key.toList) := by
  rw [amendedKey, amendedKey, ← String.toList_inj]
  simp only [String.toList_append, List.append_assoc]

theorem eventKey_eq_amendedKey {original key metered : String} :
    amendedKey original key = eventKey metered ↔
      original.toList ++ ("::amend::".toList ++ key.toList) =
        metered.toList ++ "::event".toList := by
  rw [amendedKey, eventKey, ← String.toList_inj]
  simp only [String.toList_append, List.append_assoc]

/-- **When a metered key is also the key of an amendment.** -/
theorem metered_is_amended_iff {metered : String} :
    (∃ original key, amendedKey original key = eventKey metered) ↔
      Occurs "::amend::" (metered ++ "::") := by
  rw [Occurs, String.toList_append, ← meets_event.occurs_before]
  constructor
  · rintro ⟨original, key, same⟩
    have same := eventKey_eq_amendedKey.mp same
    refine ⟨original.toList, key.toList, ?_, same⟩
    have lengths := congrArg List.length same
    simp only [List.length_append] at lengths
    have longer : "::event".toList.length < "::amend::".toList.length := by decide
    omega
  · rintro ⟨front, rest, _, same⟩
    refine ⟨String.ofList front, String.ofList rest, eventKey_eq_amendedKey.mpr ?_⟩
    rw [@String.toList_ofList front, @String.toList_ofList rest, same]

/-- **When the key of an amendment is also a metered one.** -/
theorem amended_is_metered_iff (original key : String) :
    (∃ metered, eventKey metered = amendedKey original key) ↔ Ends "::event" ("::" ++ key) := by
  have after := meets_event.occurs_after key.toList []
  rw [List.append_nil] at after
  rw [Ends, String.toList_append]
  refine ⟨fun ⟨metered, same⟩ => ?_, fun ⟨front, isKey⟩ => ?_⟩
  · have same := eventKey_eq_amendedKey.mp same.symm
    have longer : "::event".toList.length < "::amend::".toList.length := by decide
    rcases List.append_eq_append_iff.mp same with ⟨front, _, isEnding⟩ | ⟨front, _, isEnding⟩
    · have nonempty : front ≠ [] := by
        rintro rfl
        have lengths := congrArg List.length isEnding
        simp only [List.length_append, List.nil_append] at lengths
        omega
      obtain ⟨front', isKey⟩ := after.mp ⟨front, nonempty, isEnding⟩
      exact ⟨front', isKey.symm⟩
    · have lengths := congrArg List.length isEnding
      simp only [List.length_append] at lengths
      omega
  · obtain ⟨middle, _, isKey⟩ := after.mpr ⟨front, isKey.symm⟩
    refine ⟨String.ofList (original.toList ++ middle), (eventKey_eq_amendedKey.mpr ?_).symm⟩
    rw [isKey, @String.toList_ofList (original.toList ++ middle), List.append_assoc]

/-! ### What a key determines -/

/-- No other derivation gives the key. -/
def Derivation.Determined (derivation : Derivation) : Prop :=
  ∀ other : Derivation, other.eventKey = derivation.eventKey → other = derivation

/-- **A derivation can be read off its key** exactly if its texts are apart. -/
theorem determined_iff {derivation : Derivation} : derivation.Determined ↔ derivation.Apart := by
  cases derivation with
  | metered key =>
    rw [Derivation.Apart, ← metered_is_amended_iff]
    constructor
    · rintro determined ⟨original, key', same⟩
      cases determined (.amended original key') same
    · intro apart other same
      cases other with
      | metered key' => rw [eventKey_injective same]
      | amended original key' => exact absurd ⟨original, key', same⟩ apart
  | amended original key =>
    rw [Derivation.Apart, ← amended_is_metered_iff original, Occurs, Occurs, String.toList_append,
      String.toList_append, ← and_assoc, ← split_iff meets_amend]
    constructor
    · refine fun determined => ⟨fun first last same => ?_, fun ⟨metered, same⟩ => ?_⟩
      · have isKey : amendedKey (String.ofList first) (String.ofList last) =
            amendedKey original key := by
          rw [amendedKey_eq, @String.toList_ofList first, @String.toList_ofList last, same]
        have same := determined (.amended (String.ofList first) (String.ofList last)) isKey
        obtain ⟨isOriginal, isLast⟩ := Derivation.amended.inj same
        rw [← isOriginal, ← isLast]
        exact ⟨String.toList_ofList.symm, String.toList_ofList.symm⟩
      · cases determined (.metered metered) same
    · rintro ⟨split, notMetered⟩ other same
      cases other with
      | metered key' => exact absurd ⟨key', same⟩ notMetered
      | amended original' key' =>
        obtain ⟨isOriginal, isKey⟩ := split _ _ (amendedKey_eq.mp same)
        rw [String.toList_inj.mp isOriginal, String.toList_inj.mp isKey]

/-- **An amendment of an amendment is never apart**: it can be read as one of the first original. -/
theorem amended_twice_not_apart (source : KeySource) (first second : String) :
    ¬ (Derivation.amended (KeySource.amended source first).eventKey second).Apart := by
  intro apart
  have determined := determined_iff.mpr apart
  have same := determined (.amended source.eventKey (amendedKey first second)) (by
    simp [Derivation.eventKey, KeySource.eventKey, amendedKey, String.append_assoc])
  have lengths := congrArg (fun text => text.toList.length) (Derivation.amended.inj same).1
  have nonempty : 0 < "::amend::".toList.length := by decide
  simp only [KeySource.eventKey, amendedKey, String.toList_append, List.length_append] at lengths
  omega

/-- **A derived key, and so its id, tells what it was derived from** exactly if the texts are apart. The
hash is taken to send no other key of the organization to the id. -/
theorem derived_key_determines_iff {idempotentEventId : OrgId → String → EventId} {org : OrgId}
    {source : KeySource} {derivation : Derivation} (derived : source.derivation = some derivation)
    (distinct : ∀ key, idempotentEventId org key = idempotentEventId org source.eventKey →
      key = source.eventKey) :
    ((∀ other : KeySource, other.derivation.isSome → other.eventKey = source.eventKey →
      other.derivation = some derivation) ↔ derivation.Apart) ∧
    ((∀ other : KeySource, other.derivation.isSome →
      idempotentEventId org other.eventKey = idempotentEventId org source.eventKey →
        other.derivation = some derivation) ↔ derivation.Apart) := by
  have keys : (∀ other : KeySource, other.derivation.isSome → other.eventKey = source.eventKey →
      other.derivation = some derivation) ↔ derivation.Apart := by
    rw [← determined_iff, eventKey_of_derivation derived]
    constructor
    · intro determines other same
      obtain ⟨source', isOther⟩ := exists_source other
      have told := determines source' (by rw [isOther]; rfl)
        (by rw [eventKey_of_derivation isOther, same])
      exact Option.some.inj (isOther.symm.trans told)
    · intro determined other isDerived same
      obtain ⟨derivation', isOther⟩ := Option.isSome_iff_exists.mp isDerived
      rw [isOther, determined derivation' (by rw [← eventKey_of_derivation isOther, same])]
  refine ⟨keys, Iff.trans (forall₂_congr fun other _ => ?_) keys⟩
  refine imp_congr_left ⟨distinct other.eventKey, fun same => ?_⟩
  rw [same]

/-- **Two versions that the store makes under one key** amend events of one key under the caller's same
key, if the texts of one of them are apart. -/
theorem intoAmendedEvent_determined {idempotentEventId : OrgId → String → EventId}
    {original original' : Event} {source source' : KeySource} {req req' : AmendEvent}
    {draw draw' : Draw} (isKey : original.idempotencyKey = source.eventKey)
    (isKey' : original'.idempotencyKey = source'.eventKey)
    (apart : (Derivation.amended original.idempotencyKey
      (req.idempotencyKey.getD draw.version.toString)).Apart)
    (same : (req'.intoAmendedEvent idempotentEventId original' draw').idempotencyKey =
      (req.intoAmendedEvent idempotentEventId original draw).idempotencyKey) :
    original'.idempotencyKey = original.idempotencyKey ∧
      req'.idempotencyKey.getD draw'.version.toString =
        req.idempotencyKey.getD draw.version.toString := by
  rw [(intoAmendedEvent_source isKey req draw).1, (intoAmendedEvent_source isKey' req' draw').1] at same
  rw [isKey] at apart
  have determined := determined_iff.mpr apart (.amended source'.eventKey
    (req'.idempotencyKey.getD draw'.version.toString)) same
  rw [isKey, isKey']
  exact Derivation.amended.inj determined

/-- A hash that tells one key from all others. -/
def onlyKey (known : String) (_ : OrgId) (key : String) : EventId := if key = known then 1 else 0

/-- Colon-free keys are apart. -/
theorem derived_key_determines_iff_plain :
    (∀ other : KeySource, other.derivation.isSome →
      other.eventKey = (KeySource.amended (.metered "k") "a").eventKey →
        other.derivation = some (.amended "k::event" "a")) ∧
    ∀ other : KeySource, other.derivation.isSome →
      onlyKey "k::event::amend::a" 1 other.eventKey =
        onlyKey "k::event::amend::a" 1 (KeySource.amended (.metered "k") "a").eventKey →
          other.derivation = some (.amended "k::event" "a") := by
  have apart : (Derivation.amended "k::event" "a").Apart := by
    refine ⟨?_, ?_, ?_⟩
    · decide
    · decide
    · decide
  have distinct : ∀ key, onlyKey "k::event::amend::a" 1 key =
      onlyKey "k::event::amend::a" 1 (KeySource.amended (.metered "k") "a").eventKey →
        key = (KeySource.amended (.metered "k") "a").eventKey := by
    have isKey : (KeySource.amended (.metered "k") "a").eventKey = "k::event::amend::a" := by decide
    intro key same
    rw [isKey, onlyKey, onlyKey, if_pos rfl] at same
    rw [isKey]
    by_contra different
    rw [if_neg different] at same
    exact absurd same (by decide)
  have derived : (KeySource.amended (.metered "k") "a").derivation =
      some (.amended "k::event" "a") := by
    decide
  obtain ⟨byKey, byId⟩ := derived_key_determines_iff derived distinct
  exact ⟨byKey.mpr apart, byId.mpr apart⟩

/-- **Two readings of one key**: a second amendment under `b` is a first one under `a::amend::b`, and
an amendment under `b::event` is a metered usage. -/
theorem derived_keys_collide :
    (KeySource.amended (.amended (.metered "k") "a") "b").eventKey =
        (KeySource.amended (.metered "k") "a::amend::b").eventKey ∧
      (KeySource.amended (.amended (.metered "k") "a") "b").derivation ≠
        (KeySource.amended (.metered "k") "a::amend::b").derivation ∧
      (KeySource.amended (.posted "k") "b::event").eventKey =
        (KeySource.metered "k::amend::b").eventKey ∧
      (KeySource.amended (.posted "k") "b::event").derivation ≠
        (KeySource.metered "k::amend::b").derivation := by
  decide

end Meter.Api
