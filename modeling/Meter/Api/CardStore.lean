/-
**What the store of rate cards can answer** (`crates/meter-api/src/cards.rs`,
`crates/meter-store-pg/src/config.rs`, `grpc/config.rs`).

A card is checked when it is put, and rebuilt from its row when it is read.

* `mem_listRateCards` — **the list of live cards is the live card of each id**, in order of the ids.
* `stored_cards_load` — **whatever was put, every stored card can be read**, and is valid. So neither the
  list of all cards nor a lookup of a stored id fails.
* `lookup_after_puts` — **a lookup finds the last accepted put of the highest version of its id**.
-/

import Meter.Api.Cards
import Meter.Lib.Rollup
import Mathlib.Data.List.Sort

namespace Meter.Api

open Meter.Lib Meter.Pricing
open Meter.Postgres (DbError)

/-! ### The list of live cards -/

/-- `ORDER BY id, version DESC`. -/
def RateCardRecord.Before (first second : RateCardRecord) : Prop :=
  first.id.bits < second.id.bits ∨ first.id = second.id ∧ second.version ≤ first.version

instance : DecidableRel RateCardRecord.Before := fun _ _ => instDecidableOr

/-- The live (highest-version) rate card of every id, ordered by id. -/
def listRateCards (cards : RateCards) : RateCards :=
  distinctOn RateCardRecord.id (cards.insertionSort RateCardRecord.Before)

theorem before_total (first second : RateCardRecord) : first.Before second ∨ second.Before first := by
  rcases lt_trichotomy first.id.bits.toNat second.id.bits.toNat with less | equal | greater
  · exact .inl (.inl less)
  · have same : first.id = second.id := congrArg Uuid.mk (BitVec.eq_of_toNat_eq equal)
    exact (le_total second.version first.version).imp (fun lower => .inr ⟨same, lower⟩)
      fun lower => .inr ⟨same.symm, lower⟩
  · exact .inr (.inl greater)

theorem before_trans {first second third : RateCardRecord} (earlier : first.Before second)
    (later : second.Before third) : first.Before third := by
  rcases earlier with less | ⟨same, lower⟩
  · rcases later with less' | ⟨same', _⟩
    · exact .inl (BitVec.lt_trans less less')
    · exact .inl (same' ▸ less)
  · rcases later with less' | ⟨same', lower'⟩
    · exact .inl (same ▸ less')
    · exact .inr ⟨same.trans same', lower'.trans lower⟩

theorem sorted_by_before (cards : RateCards) :
    (cards.insertionSort RateCardRecord.Before).Pairwise RateCardRecord.Before := by
  have total : Std.Total RateCardRecord.Before := ⟨before_total⟩
  have trans : IsTrans RateCardRecord RateCardRecord.Before := ⟨fun _ _ _ => before_trans⟩
  exact List.pairwise_insertionSort _ _

theorem mem_sorted {cards : RateCards} {record : RateCardRecord} :
    record ∈ cards.insertionSort RateCardRecord.Before ↔ record ∈ cards :=
  (List.perm_insertionSort _ _).mem_iff

/-- A listed card is stored, and no version of its id is above. -/
theorem of_mem_listRateCards {cards : RateCards} {record : RateCardRecord}
    (listed : record ∈ listRateCards cards) : record ∈ cards ∧
      ∀ row ∈ cards, row.id = record.id → row.version ≤ record.version := by
  refine ⟨mem_sorted.mp (distinctOn_sublist.subset listed), fun row stored same => ?_⟩
  rcases distinctOn_first (sorted_by_before cards) listed (mem_sorted.mpr stored) same with rfl | before
  · exact le_rfl
  · rcases before with less | ⟨_, lower⟩
    · rw [same] at less
      exact absurd less (BitVec.lt_irrefl _)
    · exact lower

/-- **The list of live cards is the live card of each id.** -/
theorem mem_listRateCards {cards : RateCards} (versioned : cards.Versioned) {record : RateCardRecord} :
    record ∈ listRateCards cards ↔ latestRateCard record.id cards = some record := by
  constructor
  · intro listed
    obtain ⟨stored, highest⟩ := of_mem_listRateCards listed
    exact latestRateCard_of_highest versioned stored rfl highest
  · intro latest
    obtain ⟨stored, _, _⟩ := latestRateCard_spec latest
    obtain ⟨first, listed, same⟩ := @exists_distinctOn _ _ _ RateCardRecord.id _ _
      (mem_sorted.mpr stored)
    obtain ⟨stored', highest⟩ := of_mem_listRateCards listed
    have first' := latestRateCard_of_highest versioned stored' same (same ▸ highest)
    rw [latest] at first'
    rw [Option.some.inj first']
    exact listed

/-- The ids are in order. -/
theorem listRateCards_sorted (cards : RateCards) :
    ((listRateCards cards).map fun record => record.id.bits).Pairwise (· < ·) := by
  have sorted : (listRateCards cards).Pairwise RateCardRecord.Before :=
    (sorted_by_before cards).sublist distinctOn_sublist
  have distinct : ((listRateCards cards).map RateCardRecord.id).Pairwise (· ≠ ·) := distinctOn_nodup
  rw [List.pairwise_map] at distinct
  refine List.pairwise_map.mpr ((sorted.and distinct).imp fun both => ?_)
  exact both.1.resolve_right fun same => both.2 same.1

/-! ### Reading a card -/

/-- Every synced rate card, rebuilt. -/
def listStoredCards (serde : Serde) (cards : RateCards) : Except ApiError (List RateCard) :=
  (listRateCards cards).mapM (rateCardFromRecord serde)

/-- A row can be rebuilt to a valid card. -/
def Loads (serde : Serde) (record : RateCardRecord) : Prop :=
  ∃ card, rateCardFromRecord serde record = .ok card ∧ card.id = ⟨record.id⟩ ∧
    card.margin = record.margin ∧ card.validate = .ok ()

theorem ok_of_mapError {ε ε' α : Type} {outcome : Except ε α} {f : ε → ε'} {value : α}
    (mapped : outcome.mapError f = .ok value) : outcome = .ok value := by
  cases outcome with
  | error error => cases mapped
  | ok found =>
    cases mapped
    rfl

/-- What the check of a put finds out. -/
theorem of_validateRecord {serde : Serde} {record : RateCardRecord}
    (valid : validateRecord serde record = .ok ()) : ∃ currency components,
      Currency.new serde.debug record.currency = .ok currency ∧
      serde.components record.components = .ok components ∧
      validateLoop currency components [] = .ok () := by
  obtain ⟨currency, new, rest⟩ := ok_of_bind valid
  obtain ⟨components, parsed, checked⟩ := ok_of_bind rest
  exact ⟨currency, components, ok_of_mapError new, ok_of_mapError parsed, ok_of_mapError checked⟩

/-- What a card on the wire becomes has a kind and a version that can be read. -/
theorem of_recordFromProto {env : Env} {minted : Uuid} {card : ProtoRateCard} {record : RateCardRecord}
    (made : recordFromProto env minted card = .ok record) :
    0 ≤ record.version ∧ ∃ kind, kindFromStr record.kind = .ok kind := by
  have kinds : ∀ {kind}, rateCardKind card.kind = .ok kind → ∃ known, kindFromStr kind = .ok known := by
    intro kind named
    unfold rateCardKind at named
    split at named
    · cases named
      exact ⟨.providerCost, by decide⟩
    · split at named
      · cases named
        exact ⟨.customer, by decide⟩
      · cases named
  -- the version and all that comes after it, whatever the id is
  have versioned : ∀ id : Uuid, (show Except Status RateCardRecord from do
      let version ← if card.version.toNat < 2 ^ 31 then .ok (card.version.toNat : Int)
        else .error (.invalidArgument "version out of range")
      let kind ← rateCardKind card.kind
      let margin ← parseField env.parseDecimal "margin" card.margin
      return { id, version, kind, currency := card.currency, margin,
               components := componentsJson card.components }) = .ok record →
      0 ≤ record.version ∧ ∃ kind, kindFromStr record.kind = .ok kind := by
    intro id computed
    dsimp only at computed
    split at computed
    · obtain ⟨version, same, rest⟩ := ok_of_bind computed
      obtain ⟨kind, named, rest⟩ := ok_of_bind rest
      obtain ⟨margin, _, built⟩ := ok_of_bind rest
      cases same
      cases built
      exact ⟨Int.natCast_nonneg _, kinds named⟩
    · cases computed
  unfold recordFromProto at made
  dsimp only at made
  split at made
  · exact versioned minted made
  · obtain ⟨id, _, rest⟩ := ok_of_bind made
    exact versioned id rest

/-- **What a put accepts can be read.** -/
theorem loads_of_accepted {env : Env} {serde : Serde} {minted : Uuid} {card : ProtoRateCard}
    {record : RateCardRecord} (made : recordFromProto env minted card = .ok record)
    (valid : validateRecord serde record = .ok ()) (margin : Decimal) :
    Loads serde { record with margin } := by
  obtain ⟨version, kind, known⟩ := of_recordFromProto made
  obtain ⟨currency, components, new, parsed, checked⟩ := of_validateRecord valid
  refine ⟨⟨⟨record.id⟩, kind, currency, record.version.toNat, margin, components⟩, ?_, rfl, rfl, checked⟩
  unfold rateCardFromRecord
  dsimp only
  rw [new, parsed]
  show (if record.version < 0 then _ else _) = _
  rw [if_neg (not_lt.mpr version), known]
  rfl

/-! ### Puts -/

/-- A call of `PutRateCard`, with the id that it may mint. -/
structure Put where
  minted : Uuid
  card : Option ProtoRateCard

section

variable (env : Env) (serde : Serde)

/-- The row that a put stores, with the margin as the column has it. A put that is refused stores none. -/
def Put.row (put : Put) : Option RateCardRecord :=
  match put.card.map (recordFromProto env put.minted) with
  | some (.ok record) => match validateRecord serde record, marginColumn record.margin with
    | .ok (), .ok margin => some { record with margin }
    | _, _ => none
  | _ => none

/-- **What a put does**: its row is upserted, or nothing changes. -/
theorem putRateCardGrpc_row (put : Put) (cards : RateCards) :
    (putRateCardGrpc env serde put.minted put.card cards).2 =
      (put.row env serde).elim cards cards.upsert := by
  unfold putRateCardGrpc Put.row
  cases put.card with
  | none => rfl
  | some card =>
    rw [Option.map_some]
    dsimp only
    cases recordFromProto env put.minted card with
    | error _ => rfl
    | ok record =>
      dsimp only
      cases validateRecord serde record with
      | error _ => rfl
      | ok _ =>
        unfold putRateCard
        cases marginColumn record.margin <;> rfl

/-- A row that a put stores can be rebuilt. -/
theorem loads_of_row {put : Put} {row : RateCardRecord} (stores : put.row env serde = some row) :
    Loads serde row := by
  unfold Put.row at stores
  split at stores
  · rename_i record made
    obtain ⟨card, _, made⟩ := Option.map_eq_some_iff.mp made
    split at stores
    · rename_i valid _
      cases stores
      exact loads_of_accepted made valid _
    · cases stores
  · cases stores

/-- The rows that the puts store, in order. -/
def storedBy (puts : List Put) : RateCards := puts.filterMap (Put.row env serde)

/-- The table after some puts. -/
def tableAfter (puts : List Put) (cards : RateCards) : RateCards :=
  puts.foldl (fun cards put => (putRateCardGrpc env serde put.minted put.card cards).2) cards

theorem tableAfter_eq (puts : List Put) (cards : RateCards) :
    tableAfter env serde puts cards =
      (storedBy env serde puts).foldl (fun cards row => cards.upsert row) cards := by
  induction puts generalizing cards with
  | nil => rfl
  | cons put puts ih =>
    show tableAfter env serde puts (putRateCardGrpc env serde put.minted put.card cards).2 = _
    rw [ih, putRateCardGrpc_row, storedBy, storedBy, List.filterMap_cons]
    cases put.row env serde <;> rfl

/-- One row a version, and every row can be rebuilt. -/
structure Readable (cards : RateCards) : Prop where
  versioned : cards.Versioned
  loads : ∀ record ∈ cards, Loads serde record

variable {env serde}

theorem Readable.put {cards : RateCards} (readable : Readable serde cards) (put : Put) :
    Readable serde (putRateCardGrpc env serde put.minted put.card cards).2 := by
  rw [putRateCardGrpc_row]
  cases stores : put.row env serde with
  | none => exact readable
  | some stored =>
    refine ⟨readable.versioned.upsert, fun row member => ?_⟩
    rcases mem_upsert.mp member with rfl | ⟨old, _⟩
    · exact loads_of_row env serde stores
    · exact readable.loads row old

/-- **Whatever is put, every row can be rebuilt.** -/
theorem readable_tableAfter (puts : List Put) {cards : RateCards} (readable : Readable serde cards) :
    Readable serde (tableAfter env serde puts cards) := by
  induction puts generalizing cards with
  | nil => exact readable
  | cons put puts ih => exact ih (readable.put put)

theorem readable_nil : Readable serde [] := ⟨List.nodup_nil, nofun⟩

/-! ### Lookups -/

/-- A row is the last one of the highest version of its id. -/
def Decides (rows : RateCards) (row : RateCardRecord) : Prop :=
  ∃ earlier later, rows = earlier ++ row :: later ∧
    (∀ other ∈ earlier, other.id = row.id → other.version ≤ row.version) ∧
    ∀ other ∈ later, other.id = row.id → other.version < row.version

theorem Decides.mem {rows : RateCards} {row : RateCardRecord} (decides : Decides rows row) :
    row ∈ rows := by
  obtain ⟨_, _, rfl, _⟩ := decides
  exact List.mem_append_right _ List.mem_cons_self

/-- One more row either decides or changes nothing. -/
theorem Decides.append {rows : RateCards} {row last : RateCardRecord} (decides : Decides rows row)
    (below : last.id = row.id → last.version < row.version) : Decides (rows ++ [last]) row := by
  obtain ⟨earlier, later, rfl, before, after⟩ := decides
  refine ⟨earlier, later ++ [last], by rw [List.append_assoc, List.cons_append], before, ?_⟩
  intro other member same
  rcases List.mem_append.mp member with inside | isLast
  · exact after other inside same
  · rw [List.mem_singleton] at isLast
    subst isLast
    exact below same

theorem Decides.le {rows : RateCards} {row other : RateCardRecord} (decides : Decides rows row)
    (member : other ∈ rows) (same : other.id = row.id) : other.version ≤ row.version := by
  obtain ⟨earlier, later, rfl, before, after⟩ := decides
  rcases List.mem_append.mp member with inside | inside
  · exact before other inside same
  · rcases List.mem_cons.mp inside with rfl | inside
    · exact le_rfl
    · exact (after other inside same).le

theorem versioned_foldl (rows : RateCards) {cards : RateCards} (versioned : cards.Versioned) :
    (rows.foldl (fun cards row => cards.upsert row) cards).Versioned := by
  induction rows generalizing cards with
  | nil => exact versioned
  | cons row rows ih => exact ih versioned.upsert

/-- **The live card is the last stored row of the highest version.** -/
theorem latestRateCard_foldl (id : Uuid) (rows : RateCards) :
    (latestRateCard id (rows.foldl (fun cards row => cards.upsert row) []) = none ∧
        ∀ row ∈ rows, row.id ≠ id) ∨
      ∃ row, latestRateCard id (rows.foldl (fun cards row => cards.upsert row) []) = some row ∧
        row.id = id ∧ Decides rows row := by
  induction rows using List.reverseRecOn with
  | nil => exact .inl ⟨rfl, nofun⟩
  | append_singleton rows last ih =>
    have versioned := @versioned_foldl rows [] List.nodup_nil
    rw [List.foldl_append, List.foldl_cons, List.foldl_nil, latestRateCard_upsert versioned]
    rcases ih with ⟨absent, others⟩ | ⟨best, latest, rfl, decides⟩
    · rw [absent]
      by_cases own : last.id = id
      · rw [if_pos ⟨own, nofun⟩]
        refine .inr ⟨last, rfl, own, rows, [], rfl, fun other member same => ?_, nofun⟩
        exact absurd (same.trans own) (others other member)
      · rw [if_neg fun both => own both.1]
        refine .inl ⟨rfl, fun row member => ?_⟩
        rcases List.mem_append.mp member with inside | isLast
        · exact others row inside
        · rw [List.mem_singleton.mp isLast]
          exact own
    · rw [latest]
      by_cases takes : last.id = best.id ∧ best.version ≤ last.version
      · rw [if_pos ⟨takes.1, fun other same => Option.some.inj same ▸ takes.2⟩]
        refine .inr ⟨last, rfl, takes.1, rows, [], rfl, fun other member same => ?_, nofun⟩
        exact (decides.le member (same.trans takes.1)).trans takes.2
      · rw [if_neg fun both => takes ⟨both.1, both.2 best rfl⟩]
        refine .inr ⟨best, rfl, rfl, decides.append fun same => ?_⟩
        exact lt_of_not_ge fun above => takes ⟨same, above⟩

/-- **What a lookup finds, whatever was put**: nothing if no put of the id was accepted, and else the
card of the last accepted put of its highest version, which is valid. -/
theorem lookup_after_puts (env : Env) (serde : Serde) (puts : List Put) (id : Uuid) :
    (loadStoredCard serde (tableAfter env serde puts []) id =
        .error (.notFound ("unknown rate card: " ++ id.toString)) ∧
        ∀ row ∈ storedBy env serde puts, row.id ≠ id) ∨
      ∃ row card, loadStoredCard serde (tableAfter env serde puts []) id = .ok card ∧
        rateCardFromRecord serde row = .ok card ∧ card.validate = .ok () ∧ row.id = id ∧
        Decides (storedBy env serde puts) row := by
  rw [tableAfter_eq]
  rcases latestRateCard_foldl id (storedBy env serde puts) with
    ⟨absent, others⟩ | ⟨row, latest, own, decides⟩
  · refine .inl ⟨?_, others⟩
    rw [loadStoredCard, absent]
  · obtain ⟨put, _, stores⟩ := List.mem_filterMap.mp decides.mem
    obtain ⟨card, rebuilt, _, _, valid⟩ := loads_of_row env serde stores
    refine .inr ⟨row, card, ?_, rebuilt, valid, own, decides⟩
    rw [loadStoredCard, latest]
    exact rebuilt

/-! ### The list of all cards -/

/-- A list of computations that all succeed. -/
theorem mapM_ok {ε α β : Type} {f : α → Except ε β} {P : α → β → Prop} {values : List α}
    (answers : ∀ value ∈ values, ∃ result, f value = .ok result ∧ P value result) :
    ∃ results, values.mapM f = .ok results ∧ List.Forall₂ P values results := by
  induction values with
  | nil => exact ⟨[], rfl, .nil⟩
  | cons value rest ih =>
    obtain ⟨result, answer, holds⟩ := answers value List.mem_cons_self
    obtain ⟨results, later, each⟩ := ih fun other member => answers other (List.mem_cons_of_mem _ member)
    refine ⟨result :: results, ?_, .cons holds each⟩
    rw [List.mapM_cons, answer, later]
    rfl

theorem exists_of_forall₂ {α β : Type} {P : α → β → Prop} {values : List α} {results : List β}
    (each : List.Forall₂ P values results) :
    (∀ result ∈ results, ∃ value ∈ values, P value result) ∧
      ∀ value ∈ values, ∃ result ∈ results, P value result := by
  induction each with
  | nil => exact ⟨nofun, nofun⟩
  | cons first _ ih =>
    refine ⟨fun result member => ?_, fun value member => ?_⟩
    · rcases List.mem_cons.mp member with rfl | later
      · exact ⟨_, List.mem_cons_self, first⟩
      · obtain ⟨value, inside, holds⟩ := ih.1 result later
        exact ⟨value, List.mem_cons_of_mem _ inside, holds⟩
    · rcases List.mem_cons.mp member with rfl | later
      · exact ⟨_, List.mem_cons_self, first⟩
      · obtain ⟨result, inside, holds⟩ := ih.2 value later
        exact ⟨result, List.mem_cons_of_mem _ inside, holds⟩

/-- A card that the list and a lookup answer. -/
structure Listed (serde : Serde) (cards : RateCards) (record : RateCardRecord) (card : RateCard) :
    Prop where
  id : record.id = card.id.value
  valid : card.validate = .ok ()
  loads : loadStoredCard serde cards card.id.value = .ok card

theorem Readable.listed {cards : RateCards} (readable : Readable serde cards)
    {record : RateCardRecord} (member : record ∈ listRateCards cards) :
    ∃ card, rateCardFromRecord serde record = .ok card ∧ Listed serde cards record card := by
  have latest := (mem_listRateCards readable.versioned).mp member
  obtain ⟨card, rebuilt, id, _, valid⟩ := readable.loads record (of_mem_listRateCards member).1
  refine ⟨card, rebuilt, by rw [id], valid, ?_⟩
  rw [id, loadStoredCard, latest]
  exact rebuilt

/-- **Every stored card can be read**, whatever was put: the list of all cards is answered, in order of
the ids, with a valid card for each stored id, the one that a lookup of the id finds. -/
theorem stored_cards_load (env : Env) (serde : Serde) (puts : List Put) :
    ∃ listed, listStoredCards serde (tableAfter env serde puts []) = .ok listed ∧
      (listed.map fun card => card.id.value.bits).Pairwise (· < ·) ∧
      (∀ card ∈ listed, card.validate = .ok () ∧
        loadStoredCard serde (tableAfter env serde puts []) card.id.value = .ok card) ∧
      ∀ row ∈ tableAfter env serde puts [], ∃ card ∈ listed, card.id.value = row.id := by
  have readable : Readable serde (tableAfter env serde puts []) := readable_tableAfter puts readable_nil
  generalize tableAfter env serde puts [] = cards at readable ⊢
  obtain ⟨listed, answered, each⟩ := mapM_ok fun record => @Readable.listed _ _ readable record
  obtain ⟨rows, all⟩ := exists_of_forall₂ each
  refine ⟨listed, answered, ?_, fun card member => ?_, fun row stored => ?_⟩
  · have ids : (listRateCards cards).map (fun record => record.id.bits) =
        listed.map fun card => card.id.value.bits := by
      rw [← List.forall₂_eq_eq_eq, List.forall₂_map_left_iff, List.forall₂_map_right_iff]
      exact each.imp fun _ _ pair => congrArg Uuid.bits pair.id
    exact ids ▸ listRateCards_sorted cards
  · obtain ⟨record, _, pair⟩ := rows card member
    exact ⟨pair.valid, pair.loads⟩
  · obtain ⟨first, inside, same⟩ := @exists_distinctOn _ _ _ RateCardRecord.id _ _ (mem_sorted.mpr stored)
    obtain ⟨card, member, pair⟩ := all first inside
    exact ⟨card, member, pair.id.symm.trans same⟩

end

end Meter.Api
