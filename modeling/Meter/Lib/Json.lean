/-
**JSON values** with string-keyed objects.

* `get?` looks a field up; `asStr?`, `asBool?` and `isNull` read a value of one shape.
* `orInsert` adds the fields of one object to another where they are absent, so what was there first
  stays (`lookup_orInsert`), and what was not there is added (`lookup_orInsert_new`).
-/

import Mathlib.Data.Rat.Defs
import Mathlib.Data.List.Basic

namespace Meter.Lib

/-- A JSON value. -/
inductive Json where
  | null
  | bool (value : Bool)
  | number (value : ℚ)
  | string (value : String)
  | array (items : List Json)
  | object (fields : List (String × Json))

namespace Json

/-- A field of an object. -/
def get? (key : String) : Json → Option Json
  | object fields => fields.lookup key
  | _ => none

def asStr? : Json → Option String
  | string value => some value
  | _ => none

def asBool? : Json → Option Bool
  | bool value => some value
  | _ => none

def isNull : Json → Bool
  | null => true
  | _ => false

/-- A string, or null. -/
def ofOption : Option String → Json
  | some value => string value
  | none => null

/-- Add the fields that are not there yet. -/
def orInsert (fields : List (String × Json)) : List (String × Json) → List (String × Json)
  | [] => fields
  | (key, value) :: rest =>
    if (fields.lookup key).isSome then orInsert fields rest
    else orInsert (fields ++ [(key, value)]) rest

/-- **What was there first stays.** -/
theorem lookup_orInsert {key : String} {value : Json} (added : List (String × Json)) :
    ∀ {fields : List (String × Json)}, fields.lookup key = some value →
      (orInsert fields added).lookup key = some value := by
  induction added with
  | nil => exact fun found => found
  | cons field rest ih =>
    intro fields found
    rw [orInsert]
    split
    · exact ih found
    · refine ih ?_
      rw [List.lookup_append, found]
      rfl

theorem lookup_eq_none {fields : List (String × Json)} {key : String}
    (absent : key ∉ fields.map Prod.fst) : fields.lookup key = none := by
  rw [List.lookup_eq_none_iff]
  intro field inside
  exact bne_iff_ne.mpr fun same => absent (List.mem_map.mpr ⟨field, inside, same.symm⟩)

/-- **What was not there is added.** -/
theorem lookup_orInsert_new {key : String} (added : List (String × Json)) :
    ∀ {fields : List (String × Json)}, fields.lookup key = none →
      (orInsert fields added).lookup key = added.lookup key := by
  induction added with
  | nil => exact fun absent => absent
  | cons field rest ih =>
    intro fields absent
    rw [orInsert]
    split
    · rename_i taken
      have other : key ≠ field.1 := by
        rintro rfl
        rw [absent] at taken
        cases taken
      rw [ih absent, List.lookup_cons, beq_eq_false_iff_ne.mpr other]
    · by_cases same : key = field.1
      · rw [same, List.lookup_cons, beq_self_eq_true]
        refine lookup_orInsert rest ?_
        rw [← same, List.lookup_append, absent, same, List.lookup_cons, beq_self_eq_true]
        rfl
      · rw [List.lookup_cons, beq_eq_false_iff_ne.mpr same]
        refine ih ?_
        rw [List.lookup_append, absent, List.lookup_cons, beq_eq_false_iff_ne.mpr same]
        rfl

mutual

/-- Equality, computed. -/
def same : Json → Json → Bool
  | null, null => true
  | bool first, bool second => first == second
  | number first, number second => first == second
  | string first, string second => first == second
  | array first, array second => sameItems first second
  | object first, object second => sameFields first second
  | _, _ => false

def sameItems : List Json → List Json → Bool
  | [], [] => true
  | item :: items, item' :: items' => same item item' && sameItems items items'
  | _, _ => false

def sameFields : List (String × Json) → List (String × Json) → Bool
  | [], [] => true
  | (key, value) :: fields, (key', value') :: fields' =>
    key == key' && same value value' && sameFields fields fields'
  | _, _ => false

end

mutual

theorem eq_of_same : ∀ {first second : Json}, same first second = true → first = second
  | null, null, _ => rfl
  | bool first, bool second, equal => by rw [beq_iff_eq.mp equal]
  | number first, number second, equal => by rw [beq_iff_eq.mp equal]
  | string first, string second, equal => by rw [beq_iff_eq.mp equal]
  | array first, array second, equal => by rw [eq_of_sameItems equal]
  | object first, object second, equal => by rw [eq_of_sameFields equal]

theorem eq_of_sameItems : ∀ {first second : List Json}, sameItems first second = true →
    first = second
  | [], [], _ => rfl
  | item :: items, item' :: items', equal => by
    obtain ⟨head, tail⟩ := Bool.and_eq_true_iff.mp equal
    rw [eq_of_same head, eq_of_sameItems tail]

theorem eq_of_sameFields : ∀ {first second : List (String × Json)},
    sameFields first second = true → first = second
  | [], [], _ => rfl
  | (key, value) :: fields, (key', value') :: fields', equal => by
    obtain ⟨head, tail⟩ := Bool.and_eq_true_iff.mp equal
    obtain ⟨sameKey, sameValue⟩ := Bool.and_eq_true_iff.mp head
    rw [beq_iff_eq.mp sameKey, eq_of_same sameValue, eq_of_sameFields tail]

end

end Json

end Meter.Lib
