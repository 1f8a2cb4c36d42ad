/-
**A run void is exact, whatever runs at the same time.**

The watched run is one whose holds and direct charges were all committed before the first void of it
began, and whose entries nobody refunds by hand. Then every entry of the run has at most one refund,
of its whole amount (`Fair`), and from the first committed void on nothing of the run is open or left
to refund (`Cleared`). Both are kept by every legal action that spares the run (`Fair.store`,
`Cleared.store`).
-/

import Meter.Postgres.Safety

namespace Meter.Postgres

open Meter.Lib Meter.Ledger

/-- An entry of a run: a direct charge of it, or the settle of one of its holds. -/
def OfRun (run : RunId) (db : State) (entry : LedgerEntry) : Prop :=
  IsCharge run entry ∨ (entry.entryType = .settle ∧ ∃ reservation hold,
    entry.reservationId = some reservation ∧ db.holds.get? reservation = some hold ∧
    hold.runId = some run)

/-- Every entry of the run has no refund, or one of its whole amount. -/
def Fair (run : RunId) (db : State) : Prop :=
  ∀ entry ∈ db.entries, OfRun run db entry → entry.deltaCredits ≤ 0 ∧
    (db.linked entry.id = [] ∨
      ∃ refund, db.linked entry.id = [refund] ∧ refund.deltaCredits = -entry.deltaCredits)

section

variable {run : RunId} {scaled closed : Prop} {locks : List Lock} {db : State}

/-- The entries of the run are those that have a guard. -/
theorem OfRun.guards {entry : LedgerEntry} (ofRun : OfRun run db entry)
    (member : entry ∈ db.entries) : ∃ resource, Guards (some run) db entry.id resource := by
  rcases ofRun with isCharge | ⟨kind, reservation, hold, own, found, tagged⟩
  · exact ⟨_, run, rfl, entry, member, rfl, Or.inl ⟨isCharge.1, isCharge.2, rfl⟩⟩
  · exact ⟨_, run, rfl, entry, member, rfl,
      Or.inr ⟨kind, reservation, hold, own, found, tagged, rfl⟩⟩

theorem ofRun_of_guards (distinct : db.entryIds.Nodup) {entry : LedgerEntry} {resource : Resource}
    (member : entry ∈ db.entries) (guards : Guards (some run) db entry.id resource) :
    OfRun run db entry := by
  obtain ⟨_, ⟨⟩, other, member', named, guard⟩ := guards
  have same : other = entry := List.inj_on_of_nodup_map distinct member' member named
  subst same
  rcases guard with ⟨usage, tagged, _⟩ | ⟨kind, reservation, hold, own, found, tagged, _⟩
  · exact Or.inl ⟨usage, tagged⟩
  · exact Or.inr ⟨kind, reservation, hold, own, found, tagged⟩

/-- An entry of the run was one from the start. -/
theorem OfRun.back {db' : State} (grows : Grows db db') (wf : db.WellFormed)
    (distinct : db'.entryIds.Nodup) {entry : LedgerEntry} (member : entry ∈ db.entries)
    (ofRun : OfRun run db' entry) : OfRun run db entry := by
  obtain ⟨resource, guards⟩ := ofRun.guards (grows.entries.subset member)
  exact ofRun_of_guards wf.entryIds member
    (guards.back grows wf distinct (List.mem_map_of_mem member))

theorem OfRun.kind {entry : LedgerEntry} (ofRun : OfRun run db entry) :
    entry.entryType = .usage ∨ entry.entryType = .settle := by
  rcases ofRun with isCharge | ⟨kind, _⟩
  · exact Or.inl isCharge.1
  · exact Or.inr kind

/-- A charge or a settle is posted with a nonpositive delta. -/
theorem Legal.spend_nonpos {focus : Option RunId} {action : Action}
    (legal : Legal focus scaled locks db action)
    {entry : LedgerEntry} (posted : entry ∈ action.posted)
    (kind : entry.entryType = .usage ∨ entry.entryType = .settle) : entry.deltaCredits ≤ 0 := by
  have other : entry.entryType ≠ .grant ∧ entry.entryType ≠ .refund ∧
      entry.entryType ≠ .transfer := by
    rcases kind with kind | kind <;> rw [kind] <;> decide
  cases action with
  | credit credited =>
    obtain ⟨amount, _, _, isCredit⟩ := legal
    rw [List.mem_singleton.mp posted] at other
    rcases isCredit with ⟨isGrant, _⟩ | isRefund
    · exact absurd isGrant other.1
    · exact absurd isRefund other.2.1
  | reverse refund =>
    obtain ⟨amount, _, _, isRefund, _⟩ := legal
    rw [List.mem_singleton.mp posted] at other
    exact absurd isRefund other.2.1
  | charge charged =>
    obtain ⟨amount, negative, stores, _⟩ := legal
    rw [List.mem_singleton.mp posted, stores.delta]
    exact round5_nonpos negative.le
  | settle reservation settled =>
    obtain ⟨amount, nonpos, stores, _⟩ := legal
    rw [List.mem_singleton.mp posted, stores.delta]
    exact round5_nonpos nonpos
  | transfer out into =>
    obtain ⟨amount, stores⟩ := legal
    rcases List.mem_pair.mp posted with rfl | rfl
    · exact absurd stores.kinds.1 other.2.2
    · exact absurd stores.kinds.2 other.2.2
  | openAccount _ | place _ _ | release _ | extend _ _ => exact absurd posted List.not_mem_nil

theorem linked_store {focus : Option RunId} {action : Action}
    (legal : Legal focus scaled locks db action) (id : EntryId) :
    (Action.store db action).linked id = db.linked id ++
      action.posted.filter fun entry => entry.reversesEntryId = some id := by
  rw [State.linked, store_entries legal, List.filter_append]
  rfl

/-- An action that spares the run refunds an entry of it only as a void does. -/
theorem Legal.refund_of_run {action : Action} (legal : Legal (some run) scaled locks db action)
    (spares : Spares (some run) closed db action) {entry : LedgerEntry} (member : entry ∈ db.entries)
    (ofRun : OfRun run db entry) :
    (action.posted.filter fun posted => posted.reversesEntryId = some entry.id) = [] ∨
      ∃ refund amount, 0 < amount ∧ amount = db.unreversedRemainder entry.id ∧
        refund.deltaCredits = round5 amount ∧
        (action.posted.filter fun posted => posted.reversesEntryId = some entry.id) = [refund] := by
  obtain ⟨resource, guards⟩ := ofRun.guards member
  have none : ∀ posted : LedgerEntry, posted.reversesEntryId ≠ some entry.id →
      ([posted].filter fun posted => posted.reversesEntryId = some entry.id) = [] :=
    fun posted other => by simp [other]
  cases action with
  | credit credited =>
    exact Or.inl (none credited fun link => spares entry.id resource link guards)
  | reverse refund =>
    by_cases link : refund.reversesEntryId = some entry.id
    · obtain ⟨amount, positive, stores, _, id, link', guarded⟩ := legal
      rw [link, Option.some.injEq] at link'
      subst link'
      refine Or.inr ⟨refund, amount, positive, (guarded resource guards).2, stores.delta, ?_⟩
      simp [Action.posted, link]
    · exact Or.inl (none refund link)
  | charge charged =>
    obtain ⟨_, _, _, _, plain⟩ := legal
    exact Or.inl (none charged fun link => by cases plain.symm.trans link)
  | settle reservation settled =>
    obtain ⟨_, _, _, _, plain, _⟩ := legal
    exact Or.inl (none settled fun link => by cases plain.symm.trans link)
  | transfer out into =>
    obtain ⟨_, stores⟩ := legal
    exact Or.inl (by simp [Action.posted, stores.plain.1, stores.plain.2.1])
  | openAccount _ | place _ _ | release _ | extend _ _ => exact Or.inl rfl

/-- **Every legal action that spares the run keeps its refunds fair.** -/
theorem Fair.store {action : Action} (intact : Intact db)
    (legal : Legal (some run) scaled locks db action)
    (spares : Spares (some run) closed db action) (fair : Fair run db) :
    Fair run (Action.store db action) := by
  intro entry member ofRun
  have intact' := legal.intact intact
  rw [store_entries legal, List.mem_append] at member
  rw [linked_store legal]
  rcases member with old | posted
  · have before := ofRun.back legal.grows intact.wellFormed intact'.wellFormed.entryIds old
    obtain ⟨nonpos, refunds⟩ := fair entry old before
    refine ⟨nonpos, ?_⟩
    rcases legal.refund_of_run spares old before with still | ⟨refund, amount, positive, whole, delta,
      isRefund⟩
    · rwa [still, List.append_nil]
    · -- what is left is positive, so there is no refund yet
      have remainder : db.unreversedRemainder entry.id =
          -entry.deltaCredits - ((db.linked entry.id).map LedgerEntry.deltaCredits).sum := by
        rw [State.unreversedRemainder, State.charged_of_mem intact.wellFormed.entryIds old]
        rfl
      rw [remainder] at whole
      rcases refunds with none | ⟨first, only, full⟩
      · rw [none] at whole ⊢
        refine Or.inr ⟨refund, by rw [isRefund, List.nil_append], ?_⟩
        rw [List.map_nil, List.sum_nil, sub_zero] at whole
        rw [delta, whole, round5_of_exact (intact.scaled.delta entry old).neg]
      · rw [only, List.map_singleton, List.sum_singleton, full] at whole
        linarith
  · refine ⟨legal.spend_nonpos posted ofRun.kind, Or.inl ?_⟩
    have fresh : entry.id ∉ db.entryIds :=
      ((State.WellFormed.posted_fresh legal.fits).2 entry posted).1
    refine List.append_eq_nil_iff.mpr ⟨?_, ?_⟩
    · refine List.filter_eq_nil_iff.mpr fun other inside link => ?_
      exact fresh (intact.links other inside _ (of_decide_eq_true link))
    · refine List.filter_eq_nil_iff.mpr fun other inside link => ?_
      exact fresh ((legal.posted other inside).2 _ (of_decide_eq_true link))

/-- **Nothing of the run comes back.** -/
theorem Cleared.store {action : Action} (intact : Intact db) (isClosed : closed)
    (legal : Legal (some run) scaled locks db action)
    (spares : Spares (some run) closed db action) (clear : Cleared run db) :
    Cleared run (Action.store db action) where
  holds := by
    intro reservation hold found tagged
    have applied := found
    rw [(store_alike legal).holds] at applied
    rcases hold_apply_new applied with ⟨old, foundOld⟩ | rfl
    · obtain ⟨new, foundNew, evolves⟩ := legal.grows.hold foundOld
      rw [found, Option.some.injEq] at foundNew
      subst foundNew
      obtain ⟨closedOld, spent⟩ := clear.holds foundOld (evolves.runId ▸ tagged)
      have isClear : Clear db reservation := by
        refine ⟨old, foundOld, closedOld, fun id link => ⟨?_, spent id link⟩⟩
        obtain ⟨settle, inside, rfl, _⟩ := intact.wellFormed.settleLink foundOld link
        exact List.mem_map_of_mem inside
      obtain ⟨hold', found', closed', spent'⟩ := isClear.store legal
      rw [found, Option.some.injEq] at found'
      subst found'
      exact ⟨closed', fun id link => (spent' id link).2⟩
    · exact absurd tagged (spares isClosed)
  charges := by
    intro entry member usage tagged
    rw [store_entries legal, List.mem_append] at member
    rcases member with old | posted
    · have spent : Spent db entry.id :=
        ⟨List.mem_map_of_mem old, clear.charges entry old usage tagged⟩
      exact (spent.store legal).2
    · have foreign : closed → entry.entryType = .usage → entry.runId ≠ some run :=
        (@Legal.foreign false (some run) scaled closed locks [] db
          (fun _ _ _ inside => absurd inside List.not_mem_nil) action legal spares entry posted).tag
      exact absurd tagged (foreign isClosed usage)

end

/-! ### Interleavings -/

/-- What is promised about the run: no refund or reverse-charge of an entry of it, and no hold or
charge added to it once a void of it has begun. -/
def Undisturbed (run : RunId) (point : Point State Label) (label : Label) : Prop :=
  (∀ id, Call.links label.2 = some id →
    ∀ entry ∈ point.db.entries, entry.id = id → ¬ OfRun run point.db entry) ∧
  (Call.tag label.2 = some run → ∀ amb, .began (amb, .voidRun run) ∉ point.log)

/-- The tables are intact, the run's refunds fair, and once a void has committed nothing is left. -/
structure RunKept (run : RunId) (point : Point State Label) : Prop where
  intact : Intact point.db
  fair : Fair run point.db
  voided : ∀ amb, .committed (amb, .voidRun run) ∈ point.log →
    Closed (some run) point.log ∧ Cleared run point.db

/-- Legal actions that spare the run keep it fair and, once it is closed, cleared. -/
theorem Legals.run_kept {run : RunId} {scaled closed : Prop} {locks : List Lock}
    {actions : List Action} {db : State} (legals : Legals (some run) scaled locks db actions)
    (spared : Spared (some run) closed db actions) (intact : Intact db) (fair : Fair run db) :
    Fair run (Action.stores db actions) ∧
      (closed → Cleared run db → Cleared run (Action.stores db actions)) := by
  induction actions generalizing db with
  | nil => exact ⟨fair, fun _ => id⟩
  | cons action actions ih =>
    rw [stores_cons]
    obtain ⟨fairRest, clearRest⟩ :=
      ih legals.2 spared.2 (legals.1.intact intact) (fair.store intact legals.1 spared.1)
    exact ⟨fairRest, fun isClosed clear =>
      clearRest isClosed (clear.store intact isClosed legals.1 spared.1)⟩

theorem keeps_runKept (run : RunId) : Keeps (some run) (Undisturbed run) (RunKept run) := by
  intro point label locks actions kept _ began legals spared clears
  obtain ⟨fair, stays⟩ := legals.run_kept spared kept.intact kept.fair
  refine ⟨legals.intact kept.intact, fair, fun amb committed => ?_⟩
  have longer : point.log <+: point.log ++ [.committed label] := List.prefix_append _ _
  rcases List.mem_append.mp committed with old | new
  · obtain ⟨isClosed, clear⟩ := kept.voided amb old
    exact ⟨isClosed.mono longer, stays isClosed clear⟩
  · cases List.mem_singleton.mp new
    exact ⟨⟨run, amb, rfl, longer.subset began⟩, clears run rfl rfl⟩

theorem runKept_of_reaches {shares : Bool} {run : RunId}
    {world : World Stmt State Write Lock Label (Except LedgerError Reply)}
    (reaches : (engine shares).Reaches program (Undisturbed run) State.new world) :
    RunKept run world.point := by
  refine invariant_of_reaches (keeps_runKept run) (fun point label undisturbed => ⟨?_, ?_⟩)
    (fun _ => RunKept.intact) (fun label point kept => ⟨kept.intact, kept.fair, ?_⟩)
    ⟨.new, fun _ member => absurd member List.not_mem_nil,
      fun _ member => absurd member List.not_mem_nil⟩ reaches
  · rintro id resource link ⟨_, ⟨⟩, entry, member, named, guard⟩
    refine undisturbed.1 id link entry member named ?_
    rcases guard with ⟨usage, tagged, _⟩ | ⟨kind, reservation, hold, own, found, tagged, _⟩
    · exact Or.inl ⟨usage, tagged⟩
    · exact Or.inr ⟨kind, reservation, hold, own, found, tagged⟩
  · rintro ⟨_, amb, ⟨⟩, began⟩ tagged
    exact undisturbed.2 tagged amb began
  · intro amb committed
    rcases List.mem_append.mp committed with old | new
    · obtain ⟨isClosed, clear⟩ := kept.voided amb old
      exact ⟨isClosed.mono (List.prefix_append _ _), clear⟩
    · cases List.mem_singleton.mp new

/-- **Run void is exact under concurrency.** Any number of voids of a run, with any other
transactions, statement by statement and in any order: if the run is undisturbed and at least one
void of it has committed, then no hold of the run is open, and every direct charge of the run and
every settle of its holds has refunds of exactly its magnitude, in at most one entry. -/
theorem concurrent_run_void_exact {shares : Bool} {run : RunId}
    {world : World Stmt State Write Lock Label (Except LedgerError Reply)}
    (reaches : (engine shares).Reaches program (Undisturbed run) State.new world) {amb : Ambient}
    (committed : .committed (amb, .voidRun run) ∈ world.point.log) :
    (∀ reservation hold, world.point.db.holds.get? reservation = some hold →
      hold.runId = some run → hold.status ≠ .open) ∧
    ∀ entry ∈ world.point.db.entries, OfRun run world.point.db entry →
      world.point.db.reversed entry.id = |entry.deltaCredits| ∧
      (world.point.db.linked entry.id).length ≤ 1 := by
  have kept := runKept_of_reaches reaches
  have clear := (kept.voided amb committed).2
  refine ⟨fun reservation hold found tagged => (clear.holds found tagged).1,
    fun entry member ofRun => ?_⟩
  obtain ⟨nonpos, refunds⟩ := kept.fair entry member ofRun
  rw [abs_of_nonpos nonpos, State.reversed]
  rcases refunds with none | ⟨refund, only, full⟩
  · -- no refund at all: the entry was for nothing
    have left : world.point.db.unreversedRemainder entry.id ≤ 0 := by
      rcases ofRun with isCharge | ⟨kind, reservation, hold, own, found, tagged⟩
      · exact clear.charges entry member isCharge.1 isCharge.2
      · obtain ⟨reservation', hold', own', found', link⟩ :=
          kept.intact.wellFormed.settleHold entry member kind
        rw [own, Option.some.injEq] at own'
        subst own'
        rw [found, Option.some.injEq] at found'
        subst found'
        exact (clear.holds found tagged).2 entry.id link
    rw [State.unreversedRemainder, State.charged_of_mem kept.intact.wellFormed.entryIds member,
      State.reversed, none, List.map_nil, List.sum_nil, sub_zero] at left
    rw [none, List.map_nil, List.sum_nil]
    exact ⟨by linarith, Nat.zero_le _⟩
  · rw [only, List.map_singleton, List.sum_singleton, full]
    exact ⟨rfl, le_rfl⟩

/-- A check for `Undisturbed`: no reference at all, and nothing added to the run after a void
began. -/
def undisturbed (run : RunId) (point : Point State Label) (label : Label) : Bool :=
  (Call.links label.2).isNone && (Call.tag label.2 ≠ some run || point.log.all fun
    | .began (_, .voidRun other) => other ≠ run
    | _ => true)

theorem undisturbed_of_check {run : RunId} {point : Point State Label} {label : Label}
    (passes : undisturbed run point label = true) : Undisturbed run point label := by
  rw [undisturbed, Bool.and_eq_true, Bool.or_eq_true, decide_eq_true_eq, List.all_eq_true] at passes
  refine ⟨fun id link => ?_, fun tagged amb began => ?_⟩
  · rw [link] at passes
    cases passes.1
  · exact of_decide_eq_true (passes.2.resolve_left (fun other => other tagged) _ began) rfl

/-- Run 7 holds 60 and 10 and was charged 5. A settle at 70 slips in between the scan of a void and
its locks, and a second void waits for the first. -/
def racingVoids : List (Engine.Move Label) := [
  serially 0 (.openAccount ⟨1, .user, true, none⟩) 1,
  serially 1 (.grant ⟨1, 100, .paid, none⟩) 3,
  serially 2 (.reserve ⟨1, 11, 60, .hard, none, some 7⟩) 4,
  serially 3 (.reserve ⟨1, 12, 10, .hard, none, some 7⟩) 4,
  serially 4 (.charge ⟨1, 5, some 7, none⟩) 3,
  [.start 0 (numbered 5, .settle ⟨11, 70⟩), .exec 0, .start 1 (numbered 6, .voidRun 7), .exec 1,
    .start 2 (numbered 7, .voidRun 7), .exec 2, .exec 0, .exec 0, .exec 0, .commit 0],
  List.replicate 14 (.exec 1), [.commit 1], List.replicate 9 (.exec 2), [.commit 2]].flatten

/-- A committed void of a run. -/
def committedVoid (run : RunId) : Happened Label → Bool
  | .committed (_, .voidRun other) => other = run
  | _ => false

theorem concurrent_run_void_exact_racingVoids :
    ∃ world, (engine true).Reaches program (Undisturbed 7) State.new world ∧
      world.point.log.countP (committedVoid 7) = 2 ∧
      (∀ hold, world.point.db.holds.get? 12 = some hold → hold.status ≠ .open) ∧
      ∃ settle, world.point.db.entries[2]? = some settle ∧ settle.deltaCredits = (-70 : Credit) ∧
        world.point.db.reversed settle.id = 70 ∧ (world.point.db.linked settle.id).length ≤ 1 := by
  have followed : ((engine true).followAll program (undisturbed 7) 3 (Engine.idle State.new)
      racingVoids).any (fun world => world.point.log.countP (committedVoid 7) = 2 ∧
        (world.point.db.holds.get? 11).map Hold.runId = some (some 7) ∧
        (world.point.db.holds.get? 12).map Hold.runId = some (some 7) ∧
        world.point.db.entries[2]?.map (fun entry =>
          (entry.entryType, entry.deltaCredits, entry.reservationId)) =
          some (.settle, (-70 : Credit), some 11)) := by decide +kernel
  obtain ⟨world, result, facts⟩ := (Option.any_eq_true _ _).mp followed
  obtain ⟨twice, tagged', tagged, posted⟩ := of_decide_eq_true facts
  obtain ⟨settle, found, terms⟩ := Option.map_eq_some_iff.mp posted
  obtain ⟨hold, foundHold, ofRun⟩ := Option.map_eq_some_iff.mp tagged'
  simp only [Prod.mk.injEq] at terms
  have reaches : (engine true).Reaches program (Undisturbed 7) State.new world :=
    Engine.reaches_of_follow (fun _ _ => undisturbed_of_check) result
  obtain ⟨event, member, isVoid⟩ := List.countP_pos_iff.mp (twice ▸ Nat.two_pos)
  match event, member, isVoid with
  | .committed (amb, .voidRun other), member, isVoid =>
    rw [of_decide_eq_true isVoid] at member
    obtain ⟨closed, refunds⟩ := concurrent_run_void_exact reaches member
    have exact := refunds settle (List.mem_of_getElem? found)
      (Or.inr ⟨terms.1, 11, hold, terms.2.2, foundHold, ofRun⟩)
    refine ⟨world, reaches, twice, fun hold found => ?_, settle, found, terms.2.1, ?_, exact.2⟩
    · rw [found, Option.map_some, Option.some.injEq] at tagged
      exact closed 12 hold found tagged
    · rw [exact.1, terms.2.1]
      norm_num

end Meter.Postgres
