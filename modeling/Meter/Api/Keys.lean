/-
**The keys under which usage metering posts.**

A charge of metering is keyed by the caller's key, the postings of an amendment by the id of the
version that it produces, and the refunds of a run void by the run and the charge. The last eight
characters tell the kinds apart (`ending`), so no key of one kind is a key of another, whatever the
caller's key is; and a key of an amendment determines the version.
-/

import Meter.Api.Usage

namespace Meter.Api

open Meter.Ledger (runVoidChargeRefundKey)

/-- The last eight characters of a key. -/
def ending (key : String) : List Char := (key.toList.reverse.take 8).reverse

/-- A key ends as its last part does. -/
theorem ending_append (first last : String) (long : 8 ≤ last.toList.length) :
    ending (first ++ last) = ending last := by
  rw [ending, ending, String.toList_append, List.reverse_append, List.take_append_of_le_length]
  rwa [List.length_reverse]

theorem ending_chargeKey (key : String) : ending (chargeKey key) = "::charge".toList := by
  rw [chargeKey, ending_append _ _ (by decide)]
  decide

theorem ending_amendChargeKey (scope : EventId) :
    ending (amendChargeKey scope) = "d-charge".toList := by
  rw [amendChargeKey, ending_append _ _ (by decide)]
  decide

theorem ending_amendReverseKey (scope : EventId) :
    ending (amendReverseKey scope) = "-reverse".toList := by
  rw [amendReverseKey, ending_append _ _ (by decide)]
  decide

theorem ending_amendCompensateKey (scope : EventId) :
    ending (amendCompensateKey scope) = "mpensate".toList := by
  rw [amendCompensateKey, ending_append _ _ (by decide)]
  decide

theorem mem_hexDigits {width number : Nat} {digit : Char}
    (member : digit ∈ Uuid.hexDigits width number) : digit ∈ "0123456789abcdef".toList := by
  induction width generalizing number with
  | zero => exact absurd member List.not_mem_nil
  | succ width ih =>
    rcases List.mem_append.mp member with earlier | last
    · exact ih earlier
    · rw [List.mem_singleton.mp last]
      have bound : number % 16 < 16 := Nat.mod_lt _ (by decide)
      generalize number % 16 = digit at bound
      interval_cases digit <;> decide

/-- A UUID ends in hexadecimal digits. -/
theorem ending_uuid {uuid : Uuid} {digit : Char} (member : digit ∈ ending uuid.toString) :
    digit ∈ "0123456789abcdef".toList := by
  have last : ∀ digits : List Char, ∃ first, digits.take 8 ++ '-' :: ((digits.drop 8).take 4 ++
      '-' :: ((digits.drop 12).take 4 ++ '-' :: ((digits.drop 16).take 4 ++
        '-' :: digits.drop 20))) = first ++ digits.drop 20 := fun digits =>
    ⟨digits.take 8 ++ '-' :: ((digits.drop 8).take 4 ++ '-' :: ((digits.drop 12).take 4 ++
      '-' :: ((digits.drop 16).take 4 ++ ['-']))), by simp⟩
  obtain ⟨first, split⟩ := last (Uuid.hexDigits 32 uuid.bits.toNat)
  rw [ending, Uuid.toList_toString, Uuid.chars, split, List.reverse_append,
    List.take_append_of_le_length (by simp [Uuid.length_hexDigits])] at member
  exact mem_hexDigits (List.mem_of_mem_drop
    (List.mem_reverse.mp (List.mem_of_mem_take (List.mem_reverse.mp member))))

/-- A run void's key ends in hexadecimal digits. -/
theorem ending_runVoidChargeRefundKey {run : RunId} {charge : EntryId} {digit : Char}
    (member : digit ∈ ending (runVoidChargeRefundKey run charge)) :
    digit ∈ "0123456789abcdef".toList := by
  rw [runVoidChargeRefundKey, ending_append] at member
  · exact ending_uuid member
  · rw [Id.toString, Uuid.toList_toString, Uuid.length_chars]
    decide

/-! ### The kinds are disjoint -/

section Kinds

variable {key key' : String} {scope scope' : EventId}

theorem chargeKey_injective (same : chargeKey key = chargeKey key') : key = key' := by
  rw [chargeKey, chargeKey, ← String.toList_inj, String.toList_append, String.toList_append,
    List.append_cancel_right_eq, String.toList_inj] at same
  exact same

theorem eventKey_injective (same : eventKey key = eventKey key') : key = key' := by
  rw [eventKey, eventKey, ← String.toList_inj, String.toList_append, String.toList_append,
    List.append_cancel_right_eq, String.toList_inj] at same
  exact same

theorem append_scope_injective {last : String}
    (same : scope.toString ++ last = scope'.toString ++ last) : scope = scope' := by
  rw [← String.toList_inj, String.toList_append, String.toList_append,
    List.append_cancel_right_eq, String.toList_inj] at same
  exact Id.toString_injective same

theorem amendChargeKey_injective (same : amendChargeKey scope = amendChargeKey scope') :
    scope = scope' := append_scope_injective same

theorem amendReverseKey_injective (same : amendReverseKey scope = amendReverseKey scope') :
    scope = scope' := append_scope_injective same

/-- What a posting of usage metering is keyed for. -/
inductive KeyKind where
  | charge
  | amendCharge
  | amendReverse
  | amendCompensate
  | voidRun
  deriving DecidableEq

/-- The kind of a key. -/
@[irreducible] def keyKind (key : String) : KeyKind :=
  if ending key = "::charge".toList then .charge
  else if ending key = "d-charge".toList then .amendCharge
  else if ending key = "-reverse".toList then .amendReverse
  else if ending key = "mpensate".toList then .amendCompensate
  else .voidRun

@[simp] theorem keyKind_chargeKey : keyKind (chargeKey key) = .charge := by
  simp [keyKind, ending_chargeKey]

@[simp] theorem keyKind_amendChargeKey : keyKind (amendChargeKey scope) = .amendCharge := by
  rw [keyKind, ending_amendChargeKey]
  decide

@[simp] theorem keyKind_amendReverseKey : keyKind (amendReverseKey scope) = .amendReverse := by
  rw [keyKind, ending_amendReverseKey]
  decide

@[simp] theorem keyKind_amendCompensateKey :
    keyKind (amendCompensateKey scope) = .amendCompensate := by
  rw [keyKind, ending_amendCompensateKey]
  decide

@[simp] theorem keyKind_runVoidChargeRefundKey (run : RunId) (charge : EntryId) :
    keyKind (runVoidChargeRefundKey run charge) = .voidRun := by
  have apart : ∀ last : List Char, 'r' ∈ last ∨ 'p' ∈ last →
      ending (runVoidChargeRefundKey run charge) ≠ last := by
    rintro last (member | member) same
    · exact absurd (ending_runVoidChargeRefundKey (same ▸ member)) (by decide)
    · exact absurd (ending_runVoidChargeRefundKey (same ▸ member)) (by decide)
  rw [keyKind, if_neg (apart _ (by decide)), if_neg (apart _ (by decide)),
    if_neg (apart _ (by decide)), if_neg (apart _ (by decide))]

end Kinds

end Meter.Api
