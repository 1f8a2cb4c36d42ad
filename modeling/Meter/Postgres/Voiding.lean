/-
**The transaction of a run void.**

`void_run` locks the run's holds one by one, releases the open ones, refunds what is left of the
settled ones, and then does the same for the run's direct charges. Whatever runs beside it, each of
its writes is a legal release or refund. If the run is the watched one, all of whose holds and
charges were there before the void began, then nothing of it is left when the void commits
(`leads_voidRun`): the scan found every hold and charge, the locks keep them as they were found, and
nobody else refunds an entry whose guard is locked.

`Clear` and `Spent` are what has been dealt with. Legal actions keep them (`Clear.store`,
`Spent.store`), so a void keeps them until it commits, and so does everybody after it.
-/

import Meter.Postgres.Programs

namespace Meter.Postgres

open Meter.Lib Meter.Ledger

/-! ### What has been dealt with -/

/-- Nothing is left of an entry. -/
def Spent (db : State) (id : EntryId) : Prop := id ∈ db.entryIds ∧ db.unreversedRemainder id ≤ 0

/-- A hold is closed, and nothing is left of its settle. -/
def Clear (db : State) (reservation : ReservationId) : Prop :=
  ∃ hold, db.holds.get? reservation = some hold ∧ hold.status ≠ .open ∧
    ∀ id, hold.settleEntry = some id → Spent db id

section

variable {focus : Option RunId} {scaled : Prop} {locks : List Lock} {db : State}

/-- What references an entry gives credits back. -/
theorem Legal.refund_nonneg {action : Action} (legal : Legal focus scaled locks db action) :
    ∀ entry ∈ action.posted, entry.reversesEntryId ≠ none → 0 ≤ entry.deltaCredits := by
  cases action with
  | credit entry | reverse entry =>
    obtain ⟨amount, positive, stores, _⟩ := legal
    intro other member _
    rw [List.mem_singleton.mp member, stores.delta]
    exact round5_nonneg positive.le
  | charge entry =>
    obtain ⟨amount, _, _, _, plain⟩ := legal
    intro other member link
    rw [List.mem_singleton.mp member] at link
    exact absurd plain link
  | settle reservation entry =>
    obtain ⟨amount, _, _, _, plain, _⟩ := legal
    intro other member link
    rw [List.mem_singleton.mp member] at link
    exact absurd plain link
  | transfer out into =>
    obtain ⟨amount, stores⟩ := legal
    intro other member link
    rcases List.mem_pair.mp member with rfl | rfl
    · exact absurd stores.plain.1 link
    · exact absurd stores.plain.2.1 link
  | openAccount _ | place _ _ | release _ | extend _ _ =>
    exact fun _ member => absurd member List.not_mem_nil

/-- **What is spent stays spent.** -/
theorem Spent.store {action : Action} (legal : Legal focus scaled locks db action) {id : EntryId}
    (spent : Spent db id) : Spent (Action.store db action) id := by
  refine ⟨legal.grows.mem_entryIds spent.1, ?_⟩
  have refunds : 0 ≤ linkedSum action.posted id := by
    refine List.sum_nonneg fun amount member => ?_
    obtain ⟨entry, inside, rfl⟩ := List.mem_map.mp member
    obtain ⟨posted, link⟩ := List.mem_filter.mp inside
    refine legal.refund_nonneg entry posted fun none => ?_
    rw [none] at link
    cases of_decide_eq_true link
  have before := spent.2
  rw [State.unreversedRemainder_append (store_entries legal) spent.1]
  linarith

/-- **What is clear stays clear.** -/
theorem Clear.store {action : Action} (legal : Legal focus scaled locks db action)
    {reservation : ReservationId} (clear : Clear db reservation) :
    Clear (Action.store db action) reservation := by
  obtain ⟨hold, found, closed, spent⟩ := clear
  obtain ⟨hold', found', evolves⟩ := legal.grows.hold found
  obtain ⟨status, settleEntry⟩ := evolves.closed closed
  refine ⟨hold', found', status ▸ closed, fun id link => ?_⟩
  exact (spent id (settleEntry ▸ link)).store legal

/-- A refund of what is left of a watched entry leaves nothing. -/
theorem Legal.spent (intact : Intact db) {entry : LedgerEntry} {id : EntryId} {resource : Resource}
    (legal : Legal focus scaled locks db (.reverse entry)) (link : entry.reversesEntryId = some id)
    (guards : Guards focus db id resource) : Spent (Action.store db (.reverse entry)) id := by
  have known : id ∈ db.entryIds := by
    obtain ⟨_, _, target, member, rfl, _⟩ := guards
    exact List.mem_map_of_mem member
  refine ⟨legal.grows.mem_entryIds known, ?_⟩
  rw [State.unreversedRemainder_append (store_entries legal) known]
  obtain ⟨amount, _, stores, _, id', link', guarded⟩ := legal
  rw [link, Option.some.injEq] at link'
  subst link'
  have whole := (guarded resource guards).2
  have exact : Exact amount := by
    obtain ⟨_, _, target, member, rfl, _⟩ := guards
    rw [whole, State.unreversedRemainder, State.charged_of_mem intact.wellFormed.entryIds member]
    exact intact.scaled.exact_remainder target member target.id
  show db.unreversedRemainder id - linkedSum [entry] id ≤ 0
  rw [linkedSum_singleton, if_pos link, stores.delta, round5_of_exact exact, whole, sub_self]

/-! ### The actions of a void -/

/-- A release or a refund. -/
def IsVoid (action : Action) : Prop := IsRelease action ∨ ∃ entry, action = .reverse entry

theorem IsVoid.tagged {action : Action} (isVoid : IsVoid action) (call : Call) :
    Tagged call action := by
  rcases isVoid with release | ⟨entry, rfl⟩
  · exact release.tagged call
  · trivial

/-- A void adds refunds only. -/
theorem mem_of_voids {actions : List Action} (legals : Legals focus scaled locks db actions)
    (voids : ∀ action ∈ actions, IsVoid action) {entry : LedgerEntry}
    (member : entry ∈ (Action.stores db actions).entries) (kind : entry.entryType ≠ .refund) :
    entry ∈ db.entries := by
  induction actions generalizing db with
  | nil => exact member
  | cons action actions ih =>
    rw [stores_cons] at member
    have earlier := ih legals.2 (fun other inside => voids other (List.mem_cons_of_mem _ inside)) member
    rw [store_entries legals.1, List.mem_append] at earlier
    rcases earlier with old | posted
    · exact old
    · rcases voids action List.mem_cons_self with ⟨reservation, rfl⟩ | ⟨refund, rfl⟩
      · exact absurd posted List.not_mem_nil
      · obtain ⟨amount, _, _, isRefund, _⟩ := legals.1
        rw [List.mem_singleton.mp posted] at kind
        exact absurd isRefund kind

/-- A void adds no hold. -/
theorem hold_of_voids {actions : List Action} (legals : Legals focus scaled locks db actions)
    (voids : ∀ action ∈ actions, IsVoid action) {reservation : ReservationId} {hold : Hold}
    (found : (Action.stores db actions).holds.get? reservation = some hold) :
    ∃ old, db.holds.get? reservation = some old ∧ hold.runId = old.runId := by
  induction actions generalizing db with
  | nil => exact ⟨hold, found, rfl⟩
  | cons action actions ih =>
    rw [stores_cons] at found
    obtain ⟨middle, foundMiddle, same⟩ :=
      ih legals.2 (fun other inside => voids other (List.mem_cons_of_mem _ inside)) found
    have applied := foundMiddle
    rw [(store_alike legals.1).holds] at applied
    rcases hold_apply_new applied with ⟨old, foundOld⟩ | rfl
    · obtain ⟨new, foundNew, evolves⟩ := legals.1.grows.hold foundOld
      rw [foundMiddle, Option.some.injEq] at foundNew
      exact ⟨old, foundOld, by rw [same, foundNew, evolves.runId]⟩
    · rcases voids _ List.mem_cons_self with ⟨_, same⟩ | ⟨_, same⟩ <;> cases same

end

/-! ### What a void knows between its statements -/

section

variable {shares : Bool} {focus : Option RunId} {scaled : Prop} {locks locks' : List Lock}
  {writes : List Write} {point point' : Point State Label} {run : RunId}
  {cleared : ReservationId → Prop} {refunded : EntryId → Prop}

variable (focus scaled locks writes point run cleared refunded) in
/-- Legal voids are pending. If the run is watched, some holds are clear and some entries spent, and
stay so. -/
def Voiding : Prop :=
  ∃ actions, Pending focus scaled locks writes point actions ∧
    (∀ action ∈ actions, IsVoid action) ∧
    (focus = some run → Always focus locks point fun db =>
      (∀ reservation, cleared reservation → Clear (after db writes) reservation) ∧
        ∀ id, refunded id → Spent (after db writes) id)

theorem Voiding.further (voiding : Voiding focus scaled locks writes point run cleared refunded)
    (rely : Rely focus locks point point') (sub : locks ⊆ locks') :
    Voiding focus scaled locks' writes point' run cleared refunded := by
  obtain ⟨actions, pending, voids, done⟩ := voiding
  exact ⟨actions, pending.further rely sub, voids, fun watched => (done watched).further rely sub⟩

/-- **One more void.** -/
theorem Voiding.snoc (voiding : Voiding focus scaled locks writes point run cleared refunded)
    (rely : Rely focus locks point point') (sub : locks ⊆ locks') {action : Action}
    (isVoid : IsVoid action)
    (legal : Always focus locks' point' fun db =>
      Legal focus scaled locks' (after db writes) action) :
    Voiding focus scaled locks' (writes ++ Action.writes action) point' run cleared refunded := by
  obtain ⟨actions, pending, voids, done⟩ := voiding
  refine ⟨actions ++ [action], pending.snoc rely sub action legal, fun other member => ?_,
    fun watched => ?_⟩
  · rcases List.mem_append.mp member with old | new
    · exact voids other old
    · rwa [List.mem_singleton.mp new]
  · refine (((done watched).further rely sub).and legal).mp fun db _ both => ?_
    obtain ⟨⟨clears, spents⟩, legalNow⟩ := both
    rw [after_append]
    exact ⟨fun reservation inside => (clears reservation inside).store legalNow,
      fun id inside => (spents id inside).store legalNow⟩

/-- One more hold is clear. -/
theorem Voiding.clear (voiding : Voiding focus scaled locks writes point run cleared refunded)
    {reservation : ReservationId} (isClear : focus = some run → Always focus locks point fun db =>
      Clear (after db writes) reservation) :
    Voiding focus scaled locks writes point run (fun other => cleared other ∨ other = reservation)
      refunded := by
  obtain ⟨actions, pending, voids, done⟩ := voiding
  refine ⟨actions, pending, voids, fun watched => ((done watched).and (isClear watched)).mp ?_⟩
  rintro db _ ⟨⟨clears, spents⟩, isClearNow⟩
  refine ⟨fun other inside => ?_, spents⟩
  rcases inside with old | rfl
  · exact clears other old
  · exact isClearNow

/-- One more entry is spent. -/
theorem Voiding.spent (voiding : Voiding focus scaled locks writes point run cleared refunded)
    {id : EntryId} (isSpent : focus = some run → Always focus locks point fun db =>
      Spent (after db writes) id) :
    Voiding focus scaled locks writes point run cleared (fun other => refunded other ∨ other = id) := by
  obtain ⟨actions, pending, voids, done⟩ := voiding
  refine ⟨actions, pending, voids, fun watched => ((done watched).and (isSpent watched)).mp ?_⟩
  rintro db _ ⟨⟨clears, spents⟩, isSpentNow⟩
  refine ⟨clears, fun other inside => ?_⟩
  rcases inside with old | rfl
  · exact spents other old
  · exact isSpentNow

theorem Voiding.weaken {cleared' : ReservationId → Prop} {refunded' : EntryId → Prop}
    (voiding : Voiding focus scaled locks writes point run cleared refunded)
    (fewer : ∀ reservation, cleared' reservation → cleared reservation)
    (fewer' : ∀ id, refunded' id → refunded id) :
    Voiding focus scaled locks writes point run cleared' refunded' := by
  obtain ⟨actions, pending, voids, done⟩ := voiding
  refine ⟨actions, pending, voids, fun watched => (done watched).mp fun db _ both => ?_⟩
  exact ⟨fun reservation inside => both.1 reservation (fewer reservation inside),
    fun id inside => both.2 id (fewer' id inside)⟩

/-- The view of a void is intact, and grew out of what is committed. -/
theorem Voiding.view (voiding : Voiding focus scaled locks writes point run cleared refunded) :
    Always focus locks point fun db => Intact (after db writes) ∧ Grows db (after db writes) := by
  obtain ⟨actions, ⟨rfl, legals⟩, _, _⟩ := voiding
  exact legals.mp fun db intact legals => ⟨legals.intact intact, legals.grows⟩

theorem Voiding.spents (voiding : Voiding focus scaled locks writes point run cleared refunded)
    (watched : focus = some run) {id : EntryId} (inside : refunded id) :
    Always focus locks point fun db => Spent (after db writes) id := by
  obtain ⟨_, _, _, done⟩ := voiding
  exact (done watched).mp fun db _ both => both.2 id inside

/-- A later point, with more locks. -/
structure Onward (focus : Option RunId) (locks : List Lock) (point : Point State Label)
    (locks' : List Lock) (point' : Point State Label) : Prop where
  sub : locks ⊆ locks'
  rely : Rely focus locks point point'
  intact : Intact point'.db

theorem Onward.refl (intact : Intact point.db) : Onward focus locks point locks point :=
  ⟨List.Subset.refl _, .refl _ _ _, intact⟩

theorem Onward.trans {locks'' : List Lock} {point'' : Point State Label}
    (earlier : Onward focus locks point locks' point')
    (later : Onward focus locks' point' locks'' point'') :
    Onward focus locks point locks'' point'' :=
  ⟨List.Subset.trans earlier.sub later.sub, earlier.rely.trans (later.rely.anti earlier.sub),
    later.intact⟩

/-! ### One refund -/

/-- **A refund of what is left of an entry**, whose guard the void has locked. -/
theorem leads_refundRemainder {amb : Ambient} {target : EntryId} {posting : Posting}
    {summary : RunVoidSummary}
    (voiding : Voiding focus scaled locks writes point run cleared refunded)
    (kind : posting.entryType = .refund) (link : posting.reversesEntryId = some target)
    (known : target ∈ point.db.entryIds)
    (guarded : Always focus locks point fun db => ∀ resource,
      Guards focus (after db writes) target resource → Locked locks resource)
    (watched : focus = some run → ∃ resource, Guards focus point.db target resource) :
    Leads shares focus (refundRemainder amb target posting summary)
      (fun _ locks' writes' point' => Onward focus locks point locks' point' ∧
        Voiding focus scaled locks' writes' point' run cleared
          (fun id => refunded id ∨ id = target) ∧
        ∀ db, (after db writes').holds = (after db writes).holds) locks writes point := by
  refine leads_unreversedRemainder fun entry point₁ locks₁ rely₁ intact₁ sub₁ member named => ?_
  obtain ⟨viewIntact, viewGrows⟩ := voiding.view point₁ rely₁ intact₁
  have amount : -entry.deltaCredits - (after point₁.db writes).reversed target =
      (after point₁.db writes).unreversedRemainder target := by
    rw [State.unreversedRemainder, ← named,
      State.charged_of_mem viewIntact.wellFormed.entryIds member]
  have known₁ := rely₁.2.grows.mem_entryIds known
  -- nobody refunds a guarded entry from here on
  have stable : ∀ point' resource, Rely focus locks₁ point₁ point' → Intact point'.db →
      Guards focus (after point'.db writes) target resource → Locked locks resource ∧
      (after point'.db writes).unreversedRemainder target =
        (after point₁.db writes).unreversedRemainder target := by
    intro point₂ resource rely₂ intact₂ guards
    have rely₀₂ := rely₁.trans (rely₂.anti sub₁)
    have locked := guarded point₂ rely₀₂ intact₂ resource guards
    obtain ⟨viewIntact₂, viewGrows₂⟩ := voiding.view point₂ rely₀₂ intact₂
    have guards₂ := guards.back viewGrows₂ intact₂.wellFormed viewIntact₂.wellFormed.entryIds
      (rely₂.2.grows.mem_entryIds known₁)
    have guards₁ := guards₂.back rely₂.2.grows intact₁.wellFormed intact₂.wellFormed.entryIds known₁
    exact ⟨locked, rely₂.2.remainder_eq writes guards₁ (locked.mono sub₁)⟩
  have guarding : focus = some run → ∀ point', Rely focus locks₁ point₁ point' →
      Intact point'.db → ∃ resource, Guards focus (after point'.db writes) target resource := by
    intro isFocus point₂ rely₂ intact₂
    have rely₀₂ := rely₁.trans (rely₂.anti sub₁)
    obtain ⟨resource, guards⟩ := watched isFocus
    exact ⟨resource, (guards.forth rely₀₂.2.grows).forth (voiding.view point₂ rely₀₂ intact₂).2⟩
  show Leads shares focus (ite _ _ _) _ _ _ _
  rw [amount]
  split
  · rename_i nonpos
    refine ⟨⟨sub₁, rely₁, intact₁⟩, (voiding.further rely₁ sub₁).spent fun isFocus => ?_,
      fun _ => rfl⟩
    intro point₂ rely₂ intact₂
    obtain ⟨resource, guards⟩ := guarding isFocus point₂ rely₂ intact₂
    refine ⟨rely₂.2.grows.known (viewGrows.mem_entryIds known₁), ?_⟩
    rw [(stable point₂ resource rely₂ intact₂ guards).2]
    exact nonpos
  · rename_i positive
    have exact : Exact ((after point₁.db writes).unreversedRemainder target) := by
      rw [← amount]
      exact viewIntact.scaled.exact_remainder entry member target
    refine leads_post (fun _ : scaled => exact)
      fun balance locks₂ point₂ sub₂ rely₂ intact₂ stores => ?_
    have legal : Always focus locks₂ point₂ fun db => Legal focus scaled locks₂ (after db writes)
        (.reverse (postingEntry posting amb (.reversal target)
          (round5 ((after point₁.db writes).unreversedRemainder target)) balance)) := by
      intro point₃ rely₃ intact₃
      refine ⟨_, not_le.mp positive, stores point₃ rely₃ intact₃, kind, target, link,
        fun resource guards => ?_⟩
      obtain ⟨locked, same⟩ :=
        stable point₃ resource (rely₂.trans (rely₃.anti sub₂)) intact₃ guards
      exact ⟨locked.mono (List.Subset.trans sub₁ sub₂), same.symm⟩
    have onward : Onward focus locks point locks₂ point₂ :=
      ⟨List.Subset.trans sub₁ sub₂, rely₁.trans (rely₂.anti sub₁), intact₂⟩
    refine ⟨onward, (voiding.snoc onward.rely onward.sub (Or.inr ⟨_, rfl⟩) legal).spent
      fun isFocus => ?_, fun db => ?_⟩
    · intro point₃ rely₃ intact₃
      have rely₁₃ := rely₂.trans (rely₃.anti sub₂)
      obtain ⟨resource, guards⟩ := guarding isFocus point₃ rely₁₃ intact₃
      rw [after_append]
      exact (legal point₃ rely₃ intact₃).spent
        (voiding.view point₃ (rely₁.trans (rely₁₃.anti sub₁)) intact₃).1 link guards
    · rw [after_append]
      rfl

/-! ### The run's holds -/

/-- A locked hold of the run that the void has not reached yet. -/
structure Member (focus : Option RunId) (run : RunId) (locks : List Lock) (writes : List Write)
    (point : Point State Label) (member : ReservationId × Hold) : Prop where
  locked : Locked locks (.hold member.1)
  tagged : member.2.runId = some run
  row : Always focus locks point fun db => db.holds.get? member.1 = some member.2 ∧
    (after db writes).holds.get? member.1 = some member.2

theorem Member.onward {member : ReservationId × Hold} {writes' : List Write}
    (stays : Member focus run locks writes point member)
    (onward : Onward focus locks point locks' point')
    (same : ∀ db, (after db writes').holds.get? member.1 = (after db writes).holds.get? member.1) :
    Member focus run locks' writes' point' member := by
  refine ⟨stays.locked.mono onward.sub, stays.tagged, ?_⟩
  refine (stays.row.further onward.rely onward.sub).mp fun db _ row => ?_
  rw [same]
  exact row

/-- The settle of a hold is guarded by the hold. -/
theorem guard_of_settle {db : State} (wf : db.WellFormed) {reservation : ReservationId} {hold : Hold}
    {id : EntryId} {resource : Resource} (found : db.holds.get? reservation = some hold)
    (link : hold.settleEntry = some id) (guards : Guards focus db id resource) :
    resource = .hold reservation := by
  obtain ⟨settle, member, named, kind, own, _⟩ := wf.settleLink found link
  obtain ⟨_, _, entry, member', named', guard⟩ := guards
  have same : entry = settle :=
    List.inj_on_of_nodup_map wf.entryIds member' member (named'.trans named.symm)
  subst same
  rcases guard with ⟨usage, _⟩ | ⟨_, reservation', _, own', _, _, isGuard⟩
  · cases usage.symm.trans kind
  · rw [own, Option.some.injEq] at own'
    rw [isGuard, own']

theorem guards_settle {db : State} (wf : db.WellFormed) {reservation : ReservationId} {hold : Hold}
    {id : EntryId} (found : db.holds.get? reservation = some hold) (link : hold.settleEntry = some id)
    (tagged : hold.runId = some run) : Guards (some run) db id (.hold reservation) := by
  obtain ⟨settle, member, named, kind, own, _⟩ := wf.settleLink found link
  exact ⟨run, rfl, settle, member, named, Or.inr ⟨kind, reservation, hold, own, found, tagged, rfl⟩⟩

/-- **One locked hold**: released if it is open, refunded if it is settled, clear afterwards. -/
theorem leads_voidMember {amb : Ambient} {member : ReservationId × Hold} {summary : RunVoidSummary}
    (intact : Intact point.db)
    (voiding : Voiding focus scaled locks writes point run cleared refunded)
    (stays : Member focus run locks writes point member) :
    Leads shares focus (voidMember amb run member summary)
      (fun _ locks' writes' point' => Onward focus locks point locks' point' ∧
        Voiding focus scaled locks' writes' point' run (fun r => cleared r ∨ r = member.1) refunded ∧
        ∀ db, ∀ other ≠ member.1,
          (after db writes').holds.get? other = (after db writes).holds.get? other)
      locks writes point := by
  unfold voidMember
  cases status : member.2.status with
  | voided =>
    refine ⟨.refl intact, voiding.clear fun _ => ?_, fun _ _ _ => rfl⟩
    refine (stays.row.and voiding.view).mp fun db _ both => ?_
    refine ⟨member.2, both.1.2, fun isOpen => (by cases isOpen.symm.trans status), fun id link => ?_⟩
    cases ((both.2.1.wellFormed.settledIff both.1.2).mpr ⟨id, link⟩).symm.trans status
  | «open» =>
    refine leads_issue fun point₁ locks₁ rely₁ intact₁ sub₁ _ _ more result => ?_
    cases result
    have legal : Always focus locks₁ point₁ fun db =>
        Legal focus scaled locks₁ (after db writes) (.release [member.1]) :=
      (stays.row.further rely₁ sub₁).mp fun db _ row =>
        ⟨member.1, rfl, stays.locked.mono sub₁, member.2, row.2, status⟩
    refine ⟨⟨sub₁, rely₁, intact₁⟩, (voiding.snoc rely₁ sub₁ (Or.inl ⟨_, rfl⟩) legal).clear
      fun _ => ?_, fun db other different => ?_⟩
    · refine ((stays.row.and voiding.view).further rely₁ sub₁).mp fun db _ both => ?_
      rw [after_append]
      refine ⟨{ member.2 with status := .voided }, ?_, by simp, fun id link => ?_⟩
      · show ((after db writes).holds.modify member.1 _).get? member.1 = _
        rw [Table.get?_modify, if_pos rfl, both.1.2]
        rfl
      · cases ((both.2.1.wellFormed.settledIff both.1.2).mpr ⟨id, link⟩).symm.trans status
    · rw [after_append]
      show ((after db writes).holds.modify member.1 _).get? other = _
      rw [Table.get?_modify, if_neg different]
  | settled =>
    refine leads_issue fun point₁ locks₁ rely₁ intact₁ sub₁ _ settleId more result => ?_
    obtain ⟨link, rfl⟩ := exec_decode result
    rw [List.append_nil]
    have row₁ := (stays.row.further rely₁ sub₁).now intact₁
    have onward₁ : Onward focus locks point locks₁ point₁ := ⟨sub₁, rely₁, intact₁⟩
    have known : settleId ∈ point₁.db.entryIds := by
      obtain ⟨settle, inside, rfl, _⟩ := intact₁.wellFormed.settleLink row₁.1 link
      exact List.mem_map_of_mem inside
    have guarded : Always focus locks₁ point₁ fun db => ∀ resource,
        Guards focus (after db writes) settleId resource → Locked locks₁ resource := by
      refine ((stays.row.and voiding.view).further rely₁ sub₁).mp fun db _ both resource guards => ?_
      rw [guard_of_settle both.2.1.wellFormed both.1.2 link guards]
      exact stays.locked.mono sub₁
    refine Engine.wp_mono _ (fun _ => id) ?_ (leads_refundRemainder (voiding.further rely₁ sub₁)
      rfl rfl known guarded fun isFocus => ⟨_, isFocus ▸ guards_settle intact₁.wellFormed row₁.1
        link stays.tagged⟩)
    rintro _ locks₂ writes₂ point₂ ⟨onward₂, voiding₂, same⟩
    refine ⟨onward₁.trans onward₂, (voiding₂.weaken (fun _ => id) fun _ => Or.inl).clear
      fun isFocus => ?_, fun db other _ => by rw [same]⟩
    have stays₂ := stays.onward (onward₁.trans onward₂) fun db => by rw [same db]
    refine (stays₂.row.and (voiding₂.spents isFocus (Or.inr rfl))).mp fun db _ both => ?_
    refine ⟨member.2, both.1.2, fun isOpen => (by cases isOpen.symm.trans status), fun id link' => ?_⟩
    rw [link, Option.some.injEq] at link'
    exact link' ▸ both.2

/-- Every locked hold of the run is clear afterwards. -/
theorem leads_voidMembers {amb : Ambient} (members : List (ReservationId × Hold))
    {summary : RunVoidSummary} {locks : List Lock} {writes : List Write} {point : Point State Label}
    {cleared : ReservationId → Prop} (intact : Intact point.db)
    (voiding : Voiding focus scaled locks writes point run cleared refunded)
    (stay : ∀ member ∈ members, Member focus run locks writes point member)
    (distinct : (members.map Prod.fst).Nodup) :
    Leads shares focus (voidMembers amb run members summary)
      (fun _ locks' writes' point' => Onward focus locks point locks' point' ∧
        Voiding focus scaled locks' writes' point' run
          (fun r => cleared r ∨ r ∈ members.map Prod.fst) refunded) locks writes point := by
  induction members generalizing locks writes point summary cleared with
  | nil =>
    refine ⟨.refl intact, voiding.weaken (fun r inside => ?_) fun _ => id⟩
    exact inside.resolve_right List.not_mem_nil
  | cons member members ih =>
    rw [List.map_cons, List.nodup_cons] at distinct
    refine leads_then (leads_voidMember intact voiding (stay member List.mem_cons_self)) ?_
    rintro summary₁ locks₁ writes₁ point₁ ⟨onward₁, voiding₁, same⟩
    refine Engine.wp_mono _ (fun _ => id) ?_ (ih onward₁.intact voiding₁ (fun other inside => ?_)
      distinct.2)
    · rintro _ locks₂ writes₂ point₂ ⟨onward₂, voiding₂⟩
      refine ⟨onward₁.trans onward₂, voiding₂.weaken (fun r inside => ?_) fun _ => id⟩
      rw [List.map_cons, List.mem_cons] at inside
      tauto
    · refine (stay other (List.mem_cons_of_mem _ inside)).onward onward₁ fun db => same db _ ?_
      rintro isMember
      exact distinct.1 (isMember ▸ List.mem_map_of_mem inside)

/-- Locking the holds of a scan, each of which is still there and still of the run. -/
theorem leads_lockRunHolds (rows : List (ReservationId × Hold)) {locks : List Lock}
    {point : Point State Label} (intact : Intact point.db)
    (each : ∀ row ∈ rows, Always focus locks point fun db =>
      ∃ hold, db.holds.get? row.1 = some hold ∧ hold.runId = some run) :
    Leads shares focus (lockRunHolds run rows)
      (fun members locks' writes' point' => writes' = [] ∧ Onward focus locks point locks' point' ∧
        members.map Prod.fst = rows.map Prod.fst ∧
        ∀ member ∈ members, Member focus run locks' [] point' member) locks [] point := by
  induction rows generalizing locks point with
  | nil => exact ⟨rfl, .refl intact, rfl, fun _ member => absurd member List.not_mem_nil⟩
  | cons row rows ih =>
    refine leads_read (fun db => db.holds.get? row.1) (fun _ => rfl)
      fun point₁ locks₁ rely₁ intact₁ sub₁ own₁ => ?_
    have onward₁ : Onward focus locks point locks₁ point₁ := ⟨sub₁, rely₁, intact₁⟩
    obtain ⟨hold, found, tagged⟩ := each row List.mem_cons_self point₁ rely₁ intact₁
    refine leads_then (ih intact₁ fun other inside =>
      (each other (List.mem_cons_of_mem _ inside)).further rely₁ sub₁) ?_
    rintro members locks₂ writes₂ point₂ ⟨rfl, onward₂, keys, stay⟩
    have head : Member focus run locks₁ [] point₁ (row.1, hold) := by
      have locked := (locked_lockHold found).mono own₁
      refine ⟨locked, tagged, fun point' rely' intact' => ?_⟩
      have same : point'.db.holds.get? row.1 = some hold := (rely'.2.hold locked).trans found
      exact ⟨same, same⟩
    rw [show (after point₁.db []).holds.get? row.1 = some hold from found]
    simp only [tagged, if_true]
    refine ⟨rfl, onward₁.trans onward₂, by rw [List.map_cons, List.map_cons, keys], ?_⟩
    intro member inside
    rcases List.mem_cons.mp inside with rfl | inside
    · exact head.onward onward₂ fun _ => rfl
    · exact stay member inside

/-! ### The run's direct charges -/

/-- A direct charge of the run. -/
def IsCharge (run : RunId) (entry : LedgerEntry) : Prop :=
  entry.entryType = .usage ∧ entry.runId = some run

/-- Locking the charges of a scan finds them as they were. -/
theorem leads_lockRunCharges (rows : List LedgerEntry) {locks : List Lock}
    {point : Point State Label} (intact : Intact point.db)
    (voiding : Voiding focus scaled locks writes point run cleared refunded)
    (each : ∀ row ∈ rows, IsCharge run row ∧ row ∈ (after point.db writes).entries) :
    Leads shares focus (lockRunCharges run rows)
      (fun charges locks' writes' point' => writes' = writes ∧
        Onward focus locks point locks' point' ∧ charges = rows ∧
        ∀ row ∈ rows, Locked locks' (.entry row.id)) locks writes point := by
  induction rows generalizing locks point with
  | nil => exact ⟨rfl, .refl intact, rfl, fun _ member => absurd member List.not_mem_nil⟩
  | cons row rows ih =>
    refine leads_read (fun db => db.entries.find? fun other => other.id = row.id) (fun _ => rfl)
      fun point₁ locks₁ rely₁ intact₁ sub₁ own₁ => ?_
    have onward₁ : Onward focus locks point locks₁ point₁ := ⟨sub₁, rely₁, intact₁⟩
    obtain ⟨isCharge, member⟩ := each row List.mem_cons_self
    have member₁ := @Grows.mem_view _ _ rely₁.2.grows writes _ member
    have distinct := (voiding.view point₁ rely₁ intact₁).1.wellFormed.entryIds
    have locked : Locked locks₁ (.entry row.id) := by
      refine Or.inl (own₁ ?_)
      rw [Stmt.locks, if_pos (List.mem_map_of_mem member₁)]
      exact List.mem_singleton_self _
    refine leads_then (ih intact₁ (voiding.further rely₁ sub₁) fun other inside => ?_) ?_
    · obtain ⟨isCharge', member'⟩ := each other (List.mem_cons_of_mem _ inside)
      exact ⟨isCharge', rely₁.2.grows.mem_view member'⟩
    · rintro charges locks₂ writes₂ point₂ ⟨rfl, onward₂, rfl, lockeds⟩
      simp only [State.find?_id distinct member₁, isCharge.1, isCharge.2, and_self, if_true]
      refine ⟨rfl, onward₁.trans onward₂, rfl, fun other inside => ?_⟩
      rcases List.mem_cons.mp inside with rfl | inside
      · exact locked.mono onward₂.sub
      · exact lockeds other inside

/-- A direct charge is guarded by its own row. -/
theorem guard_of_charge {db : State} (distinct : db.entryIds.Nodup) {entry : LedgerEntry}
    {resource : Resource} (member : entry ∈ db.entries) (isCharge : IsCharge run entry)
    (guards : Guards focus db entry.id resource) : resource = .entry entry.id := by
  obtain ⟨_, _, other, member', named, guard⟩ := guards
  have same : other = entry := List.inj_on_of_nodup_map distinct member' member named
  subst same
  rcases guard with ⟨_, _, isGuard⟩ | ⟨settle, _⟩
  · exact isGuard
  · cases settle.symm.trans isCharge.1

/-- Every locked charge of the run is spent afterwards. -/
theorem leads_voidCharges {amb : Ambient} (charges : List LedgerEntry) {summary : RunVoidSummary}
    {locks : List Lock} {writes : List Write} {point : Point State Label}
    {refunded : EntryId → Prop} (intact : Intact point.db)
    (voiding : Voiding focus scaled locks writes point run cleared refunded)
    (each : ∀ row ∈ charges, IsCharge run row ∧ row ∈ point.db.entries ∧
      Locked locks (.entry row.id)) :
    Leads shares focus (voidCharges amb run charges summary)
      (fun _ locks' writes' point' => Onward focus locks point locks' point' ∧
        Voiding focus scaled locks' writes' point' run cleared
          (fun id => refunded id ∨ ∃ row ∈ charges, row.id = id)) locks writes point := by
  induction charges generalizing locks writes point summary refunded with
  | nil =>
    refine ⟨.refl intact, voiding.weaken (fun _ => id) fun id inside => ?_⟩
    exact inside.resolve_right fun ⟨_, member, _⟩ => absurd member List.not_mem_nil
  | cons row charges ih =>
    obtain ⟨isCharge, member, locked⟩ := each row List.mem_cons_self
    have guarded : Always focus locks point fun db => ∀ resource,
        Guards focus (after db writes) row.id resource → Locked locks resource := by
      intro point' rely' intact' resource guards
      obtain ⟨viewIntact, viewGrows⟩ := voiding.view point' rely' intact'
      have member' := viewGrows.entries.subset (rely'.2.grows.entries.subset member)
      rw [guard_of_charge viewIntact.wellFormed.entryIds member' isCharge guards]
      exact locked
    refine leads_then (leads_refundRemainder voiding rfl rfl (List.mem_map_of_mem member) guarded
      fun isFocus => ⟨_, run, isFocus, row, member, rfl, Or.inl ⟨isCharge.1, isCharge.2, rfl⟩⟩) ?_
    rintro summary₁ locks₁ writes₁ point₁ ⟨onward₁, voiding₁, _⟩
    refine Engine.wp_mono _ (fun _ => id) ?_ (ih onward₁.intact voiding₁ fun other inside => ?_)
    · rintro _ locks₂ writes₂ point₂ ⟨onward₂, voiding₂⟩
      refine ⟨onward₁.trans onward₂, voiding₂.weaken (fun _ => id) fun id inside => ?_⟩
      rcases inside with old | ⟨other, inside, rfl⟩
      · exact Or.inl (Or.inl old)
      · rcases List.mem_cons.mp inside with rfl | inside
        · exact Or.inl (Or.inr rfl)
        · exact Or.inr ⟨other, inside, rfl⟩
    · obtain ⟨isCharge', member', locked'⟩ := each other (List.mem_cons_of_mem _ inside)
      exact ⟨isCharge', onward₁.rely.2.grows.entries.subset member', locked'.mono onward₁.sub⟩

/-! ### The whole void -/

/-- Once a void of the watched run has begun, no hold of the run is added. -/
theorem Always.members (closed : Closed (some run) point.log) {keys : List ReservationId}
    (cover : ∀ reservation hold, point.db.holds.get? reservation = some hold →
      hold.runId = some run → reservation ∈ keys) :
    Always (some run) locks point fun db => ∀ reservation hold,
      db.holds.get? reservation = some hold → hold.runId = some run → reservation ∈ keys := by
  intro point' rely intact reservation hold found tagged
  cases before : point.db.holds.get? reservation with
  | none => exact absurd tagged ((rely.2.newHold before found).2 closed)
  | some old =>
    obtain ⟨new, foundNew, evolves⟩ := rely.2.grows.hold before
    rw [found, Option.some.injEq] at foundNew
    exact cover reservation old before (by rw [← evolves.runId, ← foundNew, tagged])

/-- Nor is a charge of the run. -/
theorem Always.charges (closed : Closed (some run) point.log) {rows : List LedgerEntry}
    (cover : ∀ entry ∈ point.db.entries, IsCharge run entry → entry ∈ rows) :
    Always (some run) locks point fun db => ∀ entry ∈ db.entries, IsCharge run entry →
      entry ∈ rows := by
  intro point' rely intact entry member isCharge
  obtain ⟨new, same, foreign⟩ := rely.2.entries
  rw [same, List.mem_append] at member
  rcases member with old | isNew
  · exact cover entry old isCharge
  · exact absurd isCharge.2 ((foreign entry isNew).tag closed isCharge.1)

theorem mem_orderByCreated {entries : List LedgerEntry} {entry : LedgerEntry} :
    entry ∈ orderByCreated entries ↔ entry ∈ entries :=
  (List.perm_insertionSort _ _).mem_iff

theorem mem_runCharges {db : State} {entry : LedgerEntry} :
    entry ∈ runCharges run db ↔ entry ∈ db.entries ∧ IsCharge run entry := by
  rw [runCharges, List.mem_filter, decide_eq_true_eq, IsCharge, and_comm (a := entry.runId = _)]

/-- **A run void commits legal releases and refunds only; and if the run is the watched one, nothing
of it is left.** -/
theorem leads_voidRun (amb : Ambient) {amb' : Ambient} (run : RunId)
    (began : Happened.began (amb', Call.voidRun run) ∈ point.log) :
    Leads shares focus (voidRun amb run) (Ends focus (Lands focus scaled (.voidRun run))) [] []
      point := by
  refine leads_read _ (fun _ => rfl) fun point₁ locks₁ rely₁ intact₁ _ _ => ?_
  -- the holds of the run, all of them if the run is the watched one
  obtain ⟨rows, isRows⟩ : ∃ rows, rows = amb.iterate ((after point₁.db []).holds.rows.filter
    fun row => row.2.runId = some run) := ⟨_, rfl⟩
  have perm := amb.iterate_perm ((after point₁.db []).holds.rows.filter
    fun row => row.2.runId = some run)
  rw [← isRows] at perm ⊢
  have scanned : ∀ row, row ∈ rows ↔
      point₁.db.holds.get? row.1 = some row.2 ∧ row.2.runId = some run := by
    intro row
    rw [perm.mem_iff, List.mem_filter, decide_eq_true_eq, ← Table.mem_rows_iff]
    rfl
  refine leads_then (leads_lockRunHolds rows intact₁ fun row inside => ?_) ?_
  · intro point' rely' _
    obtain ⟨found, tagged⟩ := (scanned row).mp inside
    obtain ⟨hold, found', evolves⟩ := rely'.2.grows.hold found
    exact ⟨hold, found', evolves.runId.trans tagged⟩
  rintro members locks₂ _ point₂ ⟨rfl, onward₂, keys, stay⟩
  have distinct : (members.map Prod.fst).Nodup := by
    rw [keys]
    refine (perm.map Prod.fst).nodup_iff.mpr ?_
    exact point₁.db.holds.nodup.sublist (List.filter_sublist.map _)
  have start : Voiding focus scaled locks₂ [] point₂ run (fun _ => False) fun _ => False :=
    ⟨[], .nil, fun _ member => absurd member List.not_mem_nil,
      fun _ _ _ _ => ⟨fun _ => False.elim, fun _ => False.elim⟩⟩
  refine leads_then (leads_voidMembers members onward₂.intact start stay distinct) ?_
  rintro summary₃ locks₃ writes₃ point₃ ⟨onward₃, voiding₃⟩
  refine leads_read _ (fun _ => rfl) fun point₄ locks₄ rely₄ intact₄ sub₄ _ => ?_
  have onward₄ : Onward focus locks₃ point₃ locks₄ point₄ := ⟨sub₄, rely₄, intact₄⟩
  -- the charges of the run, none of which the void itself has posted
  have charged : ∀ row ∈ orderByCreated (runCharges run (after point₄.db writes₃)),
      IsCharge run row ∧ row ∈ point₄.db.entries := by
    intro row inside
    obtain ⟨member, isCharge⟩ := mem_runCharges.mp (mem_orderByCreated.mp inside)
    obtain ⟨actions, ⟨rfl, legals⟩, voids, _⟩ := voiding₃
    refine ⟨isCharge, mem_of_voids (legals point₄ rely₄ intact₄) voids member fun refund => ?_⟩
    cases refund.symm.trans isCharge.1
  have voiding₄ := voiding₃.further rely₄ sub₄
  refine leads_then (leads_lockRunCharges _ intact₄ voiding₄ fun row inside => ?_) ?_
  · obtain ⟨isCharge, member⟩ := charged row inside
    exact ⟨isCharge, (voiding₄.view.now intact₄).2.entries.subset member⟩
  rintro charges locks₅ writes₅ point₅ ⟨rfl, onward₅, rfl, lockeds⟩
  refine leads_then (leads_voidCharges _ onward₅.intact (voiding₄.further onward₅.rely onward₅.sub)
    fun row inside => ?_) ?_
  · obtain ⟨isCharge, member⟩ := charged row inside
    exact ⟨isCharge, onward₅.rely.2.grows.entries.subset member, lockeds row inside⟩
  rintro summary₆ locks₆ writes₆ point₆ ⟨onward₆, actions, ⟨rfl, legals⟩, voids, done⟩
  intro point₇ rely₇ intact₇
  have legal₇ := legals point₇ rely₇ intact₇
  refine ⟨actions, rfl, legal₇, fun action member => (voids action member).tagged _,
    Or.inr ⟨rfl, rfl⟩, fun run' isRun isFocus => ?_⟩
  cases isRun
  subst isFocus
  obtain ⟨clears, spents⟩ := done rfl point₇ rely₇ intact₇
  have onward₄₇ : Onward (some run) locks₄ point₄ locks₆ point₇ :=
    (onward₅.trans onward₆).trans ⟨List.Subset.refl _, rely₇, intact₇⟩
  have onward₁₇ := ((onward₂.trans onward₃).trans onward₄).trans onward₄₇
  have closed : Closed (some run) point₁.log := ⟨run, amb', rfl, rely₁.1.subset began⟩
  have closed₄ : Closed (some run) point₄.log :=
    closed.mono ((onward₂.trans onward₃).trans onward₄).rely.1
  refine ⟨fun {reservation hold} found tagged => ?_, fun entry member usage tagged => ?_⟩
  · obtain ⟨old, foundOld, sameRun⟩ := hold_of_voids legal₇ voids found
    have cover : ∀ reservation hold, point₁.db.holds.get? reservation = some hold →
        hold.runId = some run → reservation ∈ rows.map Prod.fst := fun reservation hold found tagged =>
      List.mem_map.mpr ⟨(reservation, hold), (scanned _).mpr ⟨found, tagged⟩, rfl⟩
    have inside := Always.members closed cover point₇ onward₁₇.rely intact₇ reservation old foundOld
      (sameRun ▸ tagged)
    obtain ⟨hold', found', isClosed, spent⟩ := clears reservation (Or.inr (keys ▸ inside))
    have same : hold = hold' := Option.some.inj (found.symm.trans found')
    subst same
    exact ⟨isClosed, fun id link => (spent id link).2⟩
  · have committed := mem_of_voids legal₇ voids member fun refund => by
      cases refund.symm.trans usage
    have inside := Always.charges closed₄ (fun entry member isCharge => mem_orderByCreated.mpr
      (mem_runCharges.mpr ⟨(voiding₄.view.now intact₄).2.entries.subset member, isCharge⟩))
      point₇ onward₄₇.rely intact₇ entry committed ⟨usage, tagged⟩
    exact (spents entry.id (Or.inr ⟨entry, inside, rfl⟩)).2

end

end Meter.Postgres
