/-
**Identifiers, credits and instants** (`crates/meter-core`).

* `Id` — a 128-bit UUID tagged with the kind of thing it names, so that an account id is never an
  entry id. `Uuid.toString` is the hyphenated lower-case form that `Display` prints; it has length
  36 (`Uuid.length_chars`) and determines the UUID (`Uuid.toString_injective`), which is what
  the keys built from it rest on.
* `Credit` — an exact decimal. Decimals are taken as the rationals they denote.
* `OffsetDateTime` — an instant, in nanoseconds.
-/

import Mathlib.Data.Rat.Defs
import Mathlib.Algebra.Order.Ring.Rat
import Mathlib.Data.List.Basic
import Mathlib.Tactic.IntervalCases
import Mathlib.Tactic.Linarith
import Mathlib.Tactic.Ring

namespace Meter

/-! ### UUIDs -/

/-- A 128-bit UUID. -/
structure Uuid where
  bits : BitVec 128
  deriving DecidableEq, Repr

namespace Uuid

/-- The all-zero UUID. -/
def nil : Uuid := ⟨0⟩

/-- One lower-case hexadecimal digit. -/
def hexDigit (digit : Nat) : Char :=
  if digit < 10 then Char.ofNat (48 + digit) else Char.ofNat (87 + digit)

/-- The last `width` hexadecimal digits of a number, most significant first. -/
def hexDigits : Nat → Nat → List Char
  | 0, _ => []
  | width + 1, number => hexDigits width (number / 16) ++ [hexDigit (number % 16)]

/-- The characters of the hyphenated form, in groups of 8, 4, 4, 4 and 12 digits. -/
def chars (uuid : Uuid) : List Char :=
  let digits := hexDigits 32 uuid.bits.toNat
  digits.take 8 ++ '-' :: ((digits.drop 8).take 4 ++ '-' :: ((digits.drop 12).take 4 ++
    '-' :: ((digits.drop 16).take 4 ++ '-' :: digits.drop 20)))

/-- The hyphenated lower-case form. -/
def toString (uuid : Uuid) : String := String.ofList uuid.chars

theorem length_hexDigits (width number : Nat) : (hexDigits width number).length = width := by
  induction width generalizing number with
  | zero => rfl
  | succ width ih => rw [hexDigits, List.length_append, ih, List.length_singleton]

theorem hexDigit_injective {first second : Nat} (firstBound : first < 16) (secondBound : second < 16)
    (same : hexDigit first = hexDigit second) : first = second := by
  interval_cases first <;> interval_cases second <;> first | rfl | exact absurd same (by decide)

theorem hexDigit_ne_hyphen {digit : Nat} (bound : digit < 16) : hexDigit digit ≠ '-' := by
  interval_cases digit <;> decide

theorem hexDigits_injective (width : Nat) {first second : Nat} (firstBound : first < 16 ^ width)
    (secondBound : second < 16 ^ width) (same : hexDigits width first = hexDigits width second) :
    first = second := by
  induction width generalizing first second with
  | zero =>
    rw [pow_zero, Nat.lt_one_iff] at firstBound secondBound
    rw [firstBound, secondBound]
  | succ width ih =>
    obtain ⟨high, low⟩ := List.append_inj' same rfl
    rw [pow_succ] at firstBound secondBound
    have highs := ih (Nat.div_lt_of_lt_mul (by omega)) (Nat.div_lt_of_lt_mul (by omega)) high
    have lows := hexDigit_injective (Nat.mod_lt _ (by decide)) (Nat.mod_lt _ (by decide))
      (List.singleton_inj.mp low)
    omega

theorem hexDigits_ne_hyphen {width number : Nat} {digit : Char}
    (member : digit ∈ hexDigits width number) : digit ≠ '-' := by
  induction width generalizing number with
  | zero => exact absurd member List.not_mem_nil
  | succ width ih =>
    rcases List.mem_append.mp member with earlier | last
    · exact ih earlier
    · rw [List.mem_singleton.mp last]
      exact hexDigit_ne_hyphen (Nat.mod_lt _ (by decide))

/-- Dropping the hyphens gives the digits back. -/
theorem filter_chars (uuid : Uuid) :
    uuid.chars.filter (· ≠ '-') = hexDigits 32 uuid.bits.toNat := by
  have digits : ∀ piece : List Char, (∀ digit ∈ piece, digit ∈ hexDigits 32 uuid.bits.toNat) →
      piece.filter (· ≠ '-') = piece := fun piece inside =>
    List.filter_eq_self.mpr fun digit member => by
      simpa using hexDigits_ne_hyphen (inside digit member)
  have taken : ∀ from' count, ∀ digit ∈ ((hexDigits 32 uuid.bits.toNat).drop from').take count,
      digit ∈ hexDigits 32 uuid.bits.toNat := fun from' count digit member =>
    List.mem_of_mem_drop (List.mem_of_mem_take member)
  have hyphen : ∀ rest : List Char, ('-' :: rest).filter (· ≠ '-') = rest.filter (· ≠ '-') :=
    fun rest => List.filter_cons_of_neg (by decide)
  simp only [chars, List.filter_append, hyphen]
  rw [digits _ (taken 8 4), digits _ (taken 12 4), digits _ (taken 16 4),
    digits _ fun digit member => List.mem_of_mem_take member,
    digits _ fun digit member => List.mem_of_mem_drop member]
  have pieces : ∀ count from' : Nat, ∀ rest : List Char,
      (rest.drop from').take count ++ rest.drop (from' + count) = rest.drop from' := by
    intro count from' rest
    rw [← List.drop_drop, List.take_append_drop]
  rw [pieces 4 16, pieces 4 12, pieces 4 8, List.take_append_drop]

theorem chars_injective {first second : Uuid} (same : first.chars = second.chars) :
    first = second := by
  have digits : hexDigits 32 first.bits.toNat = hexDigits 32 second.bits.toNat := by
    rw [← filter_chars, ← filter_chars, same]
  have bound : ∀ uuid : Uuid, uuid.bits.toNat < 16 ^ 32 := fun uuid => uuid.bits.isLt
  have numbers := hexDigits_injective 32 (bound first) (bound second) digits
  obtain ⟨first⟩ := first
  obtain ⟨second⟩ := second
  exact congrArg mk (BitVec.eq_of_toNat_eq numbers)

theorem length_chars (uuid : Uuid) : uuid.chars.length = 36 := by
  simp [chars, length_hexDigits]

@[simp] theorem toList_toString (uuid : Uuid) : uuid.toString.toList = uuid.chars :=
  String.toList_ofList

/-- **The printed form determines the UUID.** -/
theorem toString_injective : Function.Injective toString := by
  intro first second same
  refine chars_injective ?_
  rw [← toList_toString, same, toList_toString]

/-! ### Reading the printed form -/

/-- The number that hexadecimal digits denote. -/
def readHex (digits : List Char) : Nat :=
  digits.foldl (fun number digit => 16 * number + "0123456789abcdef".toList.idxOf digit) 0

theorem readHex_hexDigits (width number : Nat) :
    readHex (hexDigits width number) = number % 16 ^ width := by
  induction width generalizing number with
  | zero => rw [hexDigits, pow_zero, Nat.mod_one]; rfl
  | succ width ih =>
    have last : "0123456789abcdef".toList.idxOf (hexDigit (number % 16)) = number % 16 := by
      have bound : number % 16 < 16 := Nat.mod_lt _ (by decide)
      generalize number % 16 = digit at bound
      interval_cases digit <;> decide
    rw [hexDigits, readHex, List.foldl_append, List.foldl_cons, List.foldl_nil, last]
    have first := ih (number / 16)
    unfold readHex at first
    rw [first, pow_succ, mul_comm (16 ^ width) 16, Nat.mod_mul]
    omega

/-- A hyphenated UUID. -/
def parseHyphenated (text : String) : Option Uuid :=
  some ⟨BitVec.ofNat 128 (readHex (text.toList.filter (· ≠ '-')))⟩

theorem parseHyphenated_toString (uuid : Uuid) : parseHyphenated uuid.toString = some uuid := by
  rw [parseHyphenated, toList_toString, filter_chars, readHex_hexDigits,
    Nat.mod_eq_of_lt (show uuid.bits.toNat < 16 ^ 32 from uuid.bits.isLt), BitVec.ofNat_toNat,
    BitVec.setWidth_eq]

end Uuid

/-! ### Typed identifiers -/

/-- What an identifier can name. -/
inductive Entity where
  | org
  | account
  | entry
  | event
  | run
  | rateCard
  | reservation
  deriving DecidableEq

/-- An identifier of one kind of thing. -/
structure Id (entity : Entity) where
  value : Uuid
  deriving DecidableEq

/-- The id with a given number, as in a test fixture. -/
instance (entity : Entity) (n : Nat) : OfNat (Id entity) n := ⟨⟨⟨BitVec.ofNat 128 n⟩⟩⟩

abbrev OrgId := Id .org
abbrev AccountId := Id .account
abbrev EntryId := Id .entry
abbrev EventId := Id .event
abbrev RunId := Id .run
abbrev RateCardId := Id .rateCard

/-- A client-owned reservation id. -/
abbrev ReservationId := Id .reservation

/-- The text an identifier prints as. -/
def Id.toString {entity : Entity} (id : Id entity) : String := id.value.toString

theorem Id.toString_injective {entity : Entity} :
    Function.Injective (Id.toString : Id entity → String) := by
  rintro ⟨first⟩ ⟨second⟩ same
  exact congrArg mk (Uuid.toString_injective same)

/-! ### Credits and instants -/

/-- An amount of credits. -/
abbrev Credit := ℚ

/-- An instant, in nanoseconds. -/
abbrev OffsetDateTime := Int

end Meter
