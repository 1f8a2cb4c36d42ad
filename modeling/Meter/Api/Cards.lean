/-
**Stored rate cards** (`crates/meter-api/src/cards.rs`, `grpc/config.rs`,
`crates/meter-store-pg/src/config.rs`).

The control plane puts versions of a card; a version that is put again is overwritten. Pricing by
card id always takes the highest stored version.

* `putRateCardGrpc` — one call of `ConfigService.PutRateCard`.
* `latestRateCard_upsert` — **what a put does to the live card of an id**: it takes its place if the
  version is not below, and nothing otherwise.
* `Env.withCards` — the handlers' environment over a table of stored cards.
-/

import Meter.Api.Usage
import Meter.Postgres.Database
import Meter.Pricing.Card

namespace Meter.Pricing

/-- A currency code: three upper-case ASCII letters. `debug` is `{:?}` of a string. -/
def Currency.new (debug : String → String) (code : String) : Except String Currency :=
  if code.toList.length = 3 ∧ code.toList.all Char.isUpper then .ok ⟨code⟩
  else .error ("invalid currency code: " ++ debug code)

end Meter.Pricing

namespace Meter.Api

open Meter.Lib Meter.Pricing
open Meter.Postgres (DbError)

/-- What reading and printing a card leaves to `serde_json` and `core::fmt`. -/
structure Serde where
  /-- `serde_json::from_value` of price components, with the text of its error. -/
  components : Json → Except String (List PriceComponent)
  /-- `{:?}` of a string. -/
  debug : String → String

/-! ### The table -/

/-- One stored rate-card version. -/
structure RateCardRecord where
  id : Uuid
  version : Int
  kind : String
  currency : String
  margin : Decimal
  components : Json

/-- Round half away from zero to ten decimals. -/
def round10 (value : Decimal) : Decimal :=
  if 0 ≤ value then ⌊value * 10 ^ 10 + 1 / 2⌋ / 10 ^ 10 else -(⌊-value * 10 ^ 10 + 1 / 2⌋ / 10 ^ 10)

/-- A value stored in a `numeric(20, 10)` column. -/
def marginColumn (value : Decimal) : Except DbError Decimal :=
  if |round10 value| < 10 ^ 10 then .ok (round10 value) else .error .numericOverflow

/-- The `rate_cards` table. -/
abbrev RateCards := List RateCardRecord

/-- The primary key of a row. -/
def RateCardRecord.key (record : RateCardRecord) : Uuid × Int := (record.id, record.version)

/-- Upsert a row on its primary key. -/
def RateCards.upsert (record : RateCardRecord) (cards : RateCards) : RateCards :=
  if cards.any fun row => row.key = record.key then
    cards.map fun row => if row.key = record.key then record else row
  else cards ++ [record]

/-- Upsert a rate-card version. -/
def putRateCard (record : RateCardRecord) (cards : RateCards) : Except DbError RateCards := do
  let margin ← marginColumn record.margin
  return cards.upsert { record with margin }

/-- The live (highest-version) rate card of an id. -/
def latestRateCard (id : Uuid) : RateCards → Option RateCardRecord
  | [] => none
  | row :: rest => match latestRateCard id rest with
    | none => if row.id = id then some row else none
    | some best => if row.id = id ∧ best.version ≤ row.version then some row else some best

/-- The primary key of the table. -/
def RateCards.Versioned (cards : RateCards) : Prop := (cards.map RateCardRecord.key).Nodup

section Latest

variable {id : Uuid} {cards : RateCards} {record best : RateCardRecord}

theorem latestRateCard_eq_none :
    latestRateCard id cards = none ↔ ∀ row ∈ cards, row.id ≠ id := by
  induction cards with
  | nil => simp [latestRateCard]
  | cons row rest ih =>
    rw [latestRateCard, List.forall_mem_cons]
    cases later : latestRateCard id rest with
    | none =>
      rw [later] at ih
      by_cases own : row.id = id
      · simp [own]
      · simpa [own] using ih
    | some best =>
      rw [later] at ih
      have some' : ¬ ∀ row ∈ rest, row.id ≠ id := fun none => by cases ih.mpr none
      by_cases above : row.id = id ∧ best.version ≤ row.version
      · simp [above]
      · simp [above, some']

/-- The live card is a stored version of the id, and no version of it is higher. -/
theorem latestRateCard_spec (latest : latestRateCard id cards = some best) :
    best ∈ cards ∧ best.id = id ∧ ∀ row ∈ cards, row.id = id → row.version ≤ best.version := by
  induction cards generalizing best with
  | nil => cases latest
  | cons row rest ih =>
    rw [latestRateCard] at latest
    rw [List.forall_mem_cons]
    cases later : latestRateCard id rest with
    | none =>
      simp only [later] at latest
      split at latest
      · rename_i own
        cases latest
        refine ⟨List.mem_cons_self, own, fun _ => le_refl _, fun other member same => ?_⟩
        exact absurd same (latestRateCard_eq_none.mp later other member)
      · cases latest
    | some previous =>
      simp only [later] at latest
      obtain ⟨member, own, above⟩ := ih later
      split at latest
      · rename_i higher
        cases latest
        exact ⟨List.mem_cons_self, higher.1, fun _ => le_refl _,
          fun other inside same => (above other inside same).trans higher.2⟩
      · rename_i lower
        cases latest
        refine ⟨List.mem_cons_of_mem _ member, own, fun same => ?_, above⟩
        exact le_of_not_ge fun higher => lower ⟨same, higher⟩

/-- A version that no other is above is the live card. -/
theorem latestRateCard_of_highest (versioned : cards.Versioned) (member : best ∈ cards)
    (own : best.id = id) (highest : ∀ row ∈ cards, row.id = id → row.version ≤ best.version) :
    latestRateCard id cards = some best := by
  cases latest : latestRateCard id cards with
  | none => exact absurd own (latestRateCard_eq_none.mp latest best member)
  | some other =>
    obtain ⟨inside, same, above⟩ := latestRateCard_spec latest
    have versions := le_antisymm (highest other inside same) (above best member own)
    rw [List.inj_on_of_nodup_map versioned inside member
      (Prod.ext (same.trans own.symm) versions)]

theorem mem_upsert {row : RateCardRecord} :
    row ∈ cards.upsert record ↔ row = record ∨ row ∈ cards ∧ row.key ≠ record.key := by
  unfold RateCards.upsert
  split
  · rename_i present
    obtain ⟨stored, member, same⟩ := List.any_eq_true.mp present
    rw [List.mem_map]
    constructor
    · rintro ⟨old, inside, rfl⟩
      by_cases key : old.key = record.key
      · exact Or.inl (if_pos key)
      · rw [if_neg key]
        exact Or.inr ⟨inside, key⟩
    · rintro (rfl | ⟨inside, key⟩)
      · exact ⟨stored, member, if_pos (of_decide_eq_true same)⟩
      · exact ⟨row, inside, if_neg key⟩
  · rename_i absent
    rw [List.mem_append, List.mem_singleton, or_comm]
    refine or_congr_right ⟨fun inside => ⟨inside, fun key => absent ?_⟩, And.left⟩
    exact List.any_eq_true.mpr ⟨row, inside, decide_eq_true key⟩

theorem RateCards.Versioned.upsert (versioned : cards.Versioned) :
    (cards.upsert record).Versioned := by
  unfold RateCards.upsert Versioned
  split
  · have keys : (cards.map fun row => if row.key = record.key then record else row).map
        RateCardRecord.key = cards.map RateCardRecord.key := by
      rw [List.map_map]
      refine List.map_congr_left fun row _ => ?_
      by_cases key : row.key = record.key
      · simp [key]
      · simp [key]
    rw [keys]
    exact versioned
  · rename_i absent
    rw [List.map_append, List.nodup_append]
    refine ⟨versioned, List.nodup_singleton _, fun key inside key' isKey same => absent ?_⟩
    obtain ⟨row, member, rfl⟩ := List.mem_map.mp inside
    rw [List.map_singleton, List.mem_singleton] at isKey
    exact List.any_eq_true.mpr ⟨row, member, decide_eq_true (same.trans isKey)⟩

/-- **A put takes the place of the live card of its id unless its version is below.** -/
theorem latestRateCard_upsert (versioned : cards.Versioned) :
    latestRateCard id (cards.upsert record) =
      if record.id = id ∧ ∀ best, latestRateCard id cards = some best →
        best.version ≤ record.version then some record else latestRateCard id cards := by
  by_cases takes : record.id = id ∧ ∀ best, latestRateCard id cards = some best →
      best.version ≤ record.version
  · rw [if_pos takes]
    obtain ⟨own, above⟩ := takes
    refine latestRateCard_of_highest versioned.upsert (mem_upsert.mpr (Or.inl rfl)) own ?_
    intro row inside same
    rcases mem_upsert.mp inside with rfl | ⟨member, _⟩
    · exact le_refl _
    · cases latest : latestRateCard id cards with
      | none => exact absurd same (latestRateCard_eq_none.mp latest row member)
      | some best => exact ((latestRateCard_spec latest).2.2 row member same).trans (above best latest)
  · rw [if_neg takes]
    cases latest : latestRateCard id cards with
    | none =>
      have foreign : record.id ≠ id := fun own => takes ⟨own, fun best isBest => by
        cases latest.symm.trans isBest⟩
      refine latestRateCard_eq_none.mpr fun row inside => ?_
      rcases mem_upsert.mp inside with rfl | ⟨member, _⟩
      · exact foreign
      · exact latestRateCard_eq_none.mp latest row member
    | some best =>
      obtain ⟨member, own, above⟩ := latestRateCard_spec latest
      have below : record.id = id → record.version < best.version := by
        intro same
        by_contra above
        refine takes ⟨same, fun other isOther => ?_⟩
        cases latest.symm.trans isOther
        exact not_lt.mp above
      refine latestRateCard_of_highest versioned.upsert (mem_upsert.mpr (Or.inr ⟨member, ?_⟩)) own ?_
      · intro key
        obtain ⟨ids, versions⟩ := Prod.mk.inj key
        exact absurd versions.symm (below (ids.symm.trans own)).ne
      · intro row inside same
        rcases mem_upsert.mp inside with rfl | ⟨member', _⟩
        · exact (below same).le
        · exact above row member' same

end Latest

/-! ### Reading a card -/

def kindFromStr (kind : String) : Except ApiError RateCardKind :=
  if kind = "provider_cost" then .ok .providerCost
  else if kind = "customer" then .ok .customer
  else .error (.unprocessable ("unknown rate card kind: " ++ kind))

/-- Rebuild a pricing card from a stored record. -/
def rateCardFromRecord (serde : Serde) (record : RateCardRecord) : Except ApiError RateCard := do
  let currency ← (Currency.new serde.debug record.currency).mapError fun error =>
    ApiError.unprocessable ("rate card currency: " ++ error)
  let components ← (serde.components record.components).mapError fun error =>
    ApiError.unprocessable ("rate card components: " ++ error)
  if record.version < 0 then .error (.unprocessable "rate card version out of range")
  else
    let kind ← kindFromStr record.kind
    return {
      id := ⟨record.id⟩
      kind
      currency
      version := record.version.toNat
      margin := record.margin
      components }

/-- The live synced card of an id. -/
def loadStoredCard (serde : Serde) (cards : RateCards) (id : Uuid) : Except ApiError RateCard :=
  match latestRateCard id cards with
  | none => .error (.notFound ("unknown rate card: " ++ id.toString))
  | some record => rateCardFromRecord serde record

/-- The environment of the handlers over a table of stored cards. -/
def Env.withCards (env : Env) (serde : Serde) (cards : RateCards) : Env :=
  { env with loadStoredCard := Api.loadStoredCard serde cards }

/-! ### Putting a card -/

/-- A gRPC status. -/
inductive Status where
  | invalidArgument (message : String)
  | internal (message : String)
  deriving DecidableEq

structure ProtoMoney where
  amount : String
  currency : String

structure ProtoPriceComponent where
  dimension : String
  modality : String
  contextTier : String
  unit : String
  chargeModel : String
  unitPrice : Option ProtoMoney

/-- A card on the wire. The kind is an open enumeration. -/
structure ProtoRateCard where
  id : String
  kind : Int
  currency : String
  version : UInt32
  margin : String
  components : List ProtoPriceComponent

def rateCardKind (kind : Int) : Except Status String :=
  if kind = 1 then .ok "provider_cost"
  else if kind = 2 then .ok "customer"
  else .error (.invalidArgument "kind is required")

/-- The JSON that the store keeps of a component. -/
def ProtoPriceComponent.toJson (component : ProtoPriceComponent) : Json := .object [
  ("dimension", .string component.dimension),
  ("modality", .string component.modality),
  ("context_tier", .string component.contextTier),
  ("unit", .string component.unit),
  ("charge_model", .string component.chargeModel),
  ("unit_price", component.unitPrice.elim .null fun price => .object [
    ("amount", .string price.amount),
    ("currency", .string price.currency)])]

def componentsJson (components : List ProtoPriceComponent) : Json :=
  .array (components.map ProtoPriceComponent.toJson)

/-- Check the structure of a card before it is stored. Kind and margin do not matter for it. -/
def validateRecord (serde : Serde) (record : RateCardRecord) : Except Status Unit := do
  let currency ← (Currency.new serde.debug record.currency).mapError fun error =>
    Status.invalidArgument ("currency: " ++ error)
  let components ← (serde.components record.components).mapError fun error =>
    Status.invalidArgument ("invalid components: " ++ error)
  (RateCard.validate {
    id := ⟨record.id⟩
    kind := .providerCost
    currency
    version := 0
    margin := 1
    components }).mapError fun error => Status.invalidArgument ("invalid rate card: " ++ error.message)

/-- `parse_uuid` and `parse_decimal`: a text field of a request. -/
def parseField {α : Type} (parse : String → Option α) (field value : String) : Except Status α :=
  match parse value with
  | some parsed => .ok parsed
  | none => .error (.invalidArgument ("invalid " ++ field ++ ": " ++ value))

/-- The record of a card on the wire. A card without an id gets the minted one. -/
def recordFromProto (env : Env) (minted : Uuid) (card : ProtoRateCard) :
    Except Status RateCardRecord := do
  let id ← if card.id = "" then .ok minted
    else parseField env.parseUuid "card.id" card.id
  let version ← if card.version.toNat < 2 ^ 31 then .ok (card.version.toNat : Int)
    else .error (.invalidArgument "version out of range")
  let kind ← rateCardKind card.kind
  let margin ← parseField env.parseDecimal "margin" card.margin
  return { id, version, kind, currency := card.currency, margin,
           components := componentsJson card.components }

/-- `ConfigService.PutRateCard`: the answer and the table after it. -/
def putRateCardGrpc (env : Env) (serde : Serde) (minted : Uuid) (card : Option ProtoRateCard)
    (cards : RateCards) : Except Status String × RateCards :=
  match card with
  | none => (.error (.invalidArgument "card is required"), cards)
  | some card => match recordFromProto env minted card with
    | .error status => (.error status, cards)
    | .ok record => match validateRecord serde record with
      | .error status => (.error status, cards)
      | .ok () => match putRateCard record cards with
        | .error error => (.error (.internal ("backend error: " ++ error.message)), cards)
        | .ok cards' => (.ok record.id.toString, cards')

end Meter.Api
