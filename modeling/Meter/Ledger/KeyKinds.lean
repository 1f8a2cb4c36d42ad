/-
**Idempotency keys, and what is found under them.**

`grant`, `refund`, `charge` and `reverse_charge` share one namespace of keys per account, and answer
a key that is used with the entry found under it, of whatever kind and amount. `void_run` posts under
keys of its own making without looking them up.

* `UniqueKeys` — at most one entry per account and key; `Right` — the answer of a keyed call is of
  the call's own type, and of the amount asked for.
* `Call.KeysFit` — the key of a call is new, or what is under it is what the call would post; and the
  keys that a run void needs are new.
* `keyed_step_iff` — one call keeps `UniqueKeys` and is answered right exactly if its keys fit.
* `keys_identify_iff` — **in every history, keys identify one posting of one kind exactly if the keys
  of every call fit**.
-/

import Meter.Ledger.Replay
import Meter.Ledger.Totality
import Meter.Ledger.VoidKeys

namespace Meter.Ledger

open Meter.Lib

/-! ### One entry per key -/

/-- The entries of an account under a key. -/
def State.keyed (s : State) (account : AccountId) (key : String) : List LedgerEntry :=
  s.entries.filter fun entry => entry.accountId = account ∧ entry.idempotencyKey = some key

/-- At most one entry per account and key. -/
def UniqueKeys (s : State) : Prop := ∀ account key, (s.keyed account key).length ≤ 1

theorem State.findKeyed_eq_none {s : State} {account : AccountId} {key : String} :
    s.findKeyed account key = none ↔ s.keyed account key = [] := by
  rw [findKeyed, ← List.head?_filter, List.head?_eq_none_iff]
  rfl

/-- The key of an entry is new on its account. -/
def Free (s : State) (entry : LedgerEntry) : Prop :=
  ∀ key, entry.idempotencyKey = some key → s.findKeyed entry.accountId key = none

theorem UniqueKeys.new : UniqueKeys State.new := fun _ _ => Nat.zero_le _

section Append

variable {s s' : State} {posted : List LedgerEntry}

theorem keyed_append (entries : s'.entries = s.entries ++ posted) (account : AccountId)
    (key : String) : s'.keyed account key = s.keyed account key ++ posted.filter fun entry =>
      entry.accountId = account ∧ entry.idempotencyKey = some key := by
  rw [State.keyed, entries, List.filter_append]
  rfl

/-- Entries whose keys are new and differ leave keys unique. -/
theorem UniqueKeys.append (unique : UniqueKeys s) (entries : s'.entries = s.entries ++ posted)
    (free : ∀ entry ∈ posted, Free s entry)
    (apart : posted.Pairwise fun first second => first.accountId = second.accountId →
      first.idempotencyKey = second.idempotencyKey → first.idempotencyKey = none) :
    UniqueKeys s' := by
  intro account key
  rw [keyed_append entries]
  have alone := apart.filter fun entry : LedgerEntry =>
    decide (entry.accountId = account ∧ entry.idempotencyKey = some key)
  have inside : ∀ entry ∈ posted.filter fun entry : LedgerEntry =>
      decide (entry.accountId = account ∧ entry.idempotencyKey = some key),
      entry ∈ posted ∧ entry.accountId = account ∧ entry.idempotencyKey = some key := by
    intro entry member
    rw [List.mem_filter, decide_eq_true_eq] at member
    exact member
  generalize (posted.filter fun entry : LedgerEntry =>
    decide (entry.accountId = account ∧ entry.idempotencyKey = some key)) = found at alone inside ⊢
  cases found with
  | nil =>
    rw [List.append_nil]
    exact unique account key
  | cons first rest =>
    obtain ⟨member, own, isKey⟩ := inside first List.mem_cons_self
    have none := State.findKeyed_eq_none.mp (free first member key isKey)
    rw [own] at none
    rw [none]
    cases rest with
    | nil => exact le_rfl
    | cons second rest =>
      obtain ⟨_, own', isKey'⟩ := inside second (List.mem_cons_of_mem _ List.mem_cons_self)
      have keyless := (List.pairwise_cons.mp alone).1 second List.mem_cons_self
        (own.trans own'.symm) (isKey.trans isKey'.symm)
      cases isKey.symm.trans keyless

theorem UniqueKeys.append_one (unique : UniqueKeys s) {entry : LedgerEntry}
    (entries : s'.entries = s.entries ++ [entry]) (free : Free s entry) : UniqueKeys s' :=
  unique.append entries (List.forall_mem_singleton.mpr free) (List.pairwise_singleton _ _)

/-- If keys stay unique, those of the new entries were new. -/
theorem UniqueKeys.free (unique : UniqueKeys s') (entries : s'.entries = s.entries ++ posted)
    {entry : LedgerEntry} (member : entry ∈ posted) : Free s entry := by
  intro key isKey
  rw [State.findKeyed_eq_none, ← List.length_eq_zero_iff]
  have total := unique entry.accountId key
  rw [keyed_append entries, List.length_append] at total
  have here : 0 < (posted.filter fun other : LedgerEntry =>
      decide (other.accountId = entry.accountId ∧ other.idempotencyKey = some key)).length := by
    refine List.length_pos_of_mem (List.mem_filter.mpr ⟨member, ?_⟩)
    exact decide_eq_true ⟨rfl, isKey⟩
  omega

end Append

/-! ### Keys that fit -/

/-- What is found under the key of a posting, if anything, is what it would post. -/
def Posting.Fits (posting : Posting) (delta : Credit) (s : State) : Prop :=
  ∀ key entry, posting.idempotencyKey = some key →
    s.findKeyed posting.accountId key = some entry →
    entry.entryType = posting.entryType ∧ entry.deltaCredits = delta

/-- The keys that a run void needs, for what is left of the settled holds and of the direct charges
of the run, are new. -/
def VoidKeysFree (s : State) (run : RunId) : Prop :=
  (∀ reservation hold id, s.holds.get? reservation = some hold → hold.runId = some run →
    hold.status = .settled → hold.settleEntry = some id → 0 < s.unreversedRemainder id →
    s.findKeyed hold.account (runVoidRefundKey run reservation) = none) ∧
  ∀ charge ∈ s.entries, charge.runId = some run → charge.entryType = .usage →
    0 < s.unreversedRemainder charge.id →
    s.findKeyed charge.accountId (runVoidChargeRefundKey run charge.id) = none

/-- The key of the call is new on the account, or what is found under it is of the type and amount
of the call. -/
def Call.KeysFit (s : State) : Call → Prop
  | .grant req => 0 < req.amount → req.posting.Fits req.amount s
  | .refund req => 0 < req.amount → req.posting.Fits req.amount s
  | .charge req => 0 < req.amount → req.posting.Fits (-req.amount) s
  | .reverseCharge req => ∀ entry, s.findKeyed req.account req.idempotencyKey = some entry →
      entry.entryType = .refund
  | .voidRun run => VoidKeysFree s run
  | .openAccount _ | .balance _ | .reserve _ | .settle _ | .void _ | .voidExpiredHolds _
  | .extendHold _ _ | .openLease _ | .closeLease _ | .entries _ => True

/-- The log of an account has an entry, of a type and amount. -/
def Logged (s : State) (account : AccountId) (kind : EntryType) (delta : Credit)
    (entry : LedgerEntry) : Prop :=
  entry ∈ s.entries ∧ entry.accountId = account ∧ entry.entryType = kind ∧
    entry.deltaCredits = delta

/-- **The answer is right**: a keyed call that is answered with an entry is answered with one of its
own type, logged on its account and, if the call names an amount, of that amount. -/
def Event.Right (event : Event) : Prop :=
  match event.call, event.reply with
  | .grant req, .ok (.entry entry) => Logged event.after req.account .grant req.amount entry
  | .refund req, .ok (.entry entry) => Logged event.after req.account .refund req.amount entry
  | .charge req, .ok (.entry entry) => Logged event.after req.account .usage (-req.amount) entry
  | .reverseCharge req, .ok (.reversal (some entry)) =>
      Logged event.after req.account .refund entry.deltaCredits entry
  | _, _ => True

/-! ### The keyed postings -/

section Calls

variable {amb : Ambient} {s s' : State}

theorem findKeyed_some {account : AccountId} {key : String} {entry : LedgerEntry}
    (found : s.findKeyed account key = some entry) :
    entry ∈ s.entries ∧ entry.accountId = account ∧ entry.idempotencyKey = some key := by
  have own := List.find?_some found
  simp only [decide_eq_true_eq] at own
  exact ⟨List.mem_of_find?_eq_some found, own⟩

theorem postCredit_logs {mint : Mint} {posting : Posting} {amount : Credit} {entry : LedgerEntry}
    (result : postCredit amb mint posting amount s = some (entry, s')) :
    s'.entries = s.entries ++ [entry] ∧
      ∃ balance, entry = posting.entry amb mint amount balance := by
  obtain ⟨row, _, same⟩ := Option.bind_eq_some_iff.mp result
  cases same
  exact ⟨rfl, _, rfl⟩

theorem postDebit_logs {mint : Mint} {posting : Posting} {amount : Credit} {entry : LedgerEntry}
    (result : postDebit amb mint posting amount s = some (entry, s')) :
    s'.entries = s.entries ++ [entry] ∧
      ∃ balance, entry = posting.entry amb mint (-amount) balance := by
  obtain ⟨row, _, same⟩ := Option.bind_eq_some_iff.mp result
  cases same
  exact ⟨rfl, _, rfl⟩

/-- **A keyed posting**: it keeps keys unique, and is answered right exactly if its key fits. -/
theorem postKeyed_iff {post : Posting → Credit → State → Option (LedgerEntry × State)}
    {posting : Posting} {amount delta : Credit} {reply : Except LedgerError LedgerEntry}
    (logs : ∀ entry after, post posting amount s = some (entry, after) →
      after.entries = s.entries ++ [entry] ∧
        ∃ balance, entry = posting.entry amb .posting delta balance)
    (wf : s.WellFormed) (unique : UniqueKeys s)
    (result : postKeyed post posting amount s = some (reply, s')) :
    UniqueKeys s' ∧ ((∀ entry, reply = .ok entry →
      Logged s' posting.accountId posting.entryType delta entry) ↔
        (0 < amount → posting.Fits delta s)) := by
  unfold postKeyed at result
  split at result
  · rename_i nothing
    cases result
    refine ⟨unique, iff_of_true (fun entry answer => ?_) fun positive => absurd positive nothing⟩
    cases answer
  rename_i positive
  split at result
  · rename_i absent
    cases result
    refine ⟨unique, iff_of_true (fun entry answer => ?_) fun _ key entry _ found => ?_⟩
    · cases answer
    · obtain ⟨member, own, _⟩ := findKeyed_some found
      exact absurd (own ▸ wf.entryAccounts entry member) absent
  split at result
  · rename_i existing used
    obtain ⟨key, isKey, found⟩ := Option.bind_eq_some_iff.mp used
    cases result
    refine ⟨unique, fun right _ key' entry isKey' found' => ?_, fun fits entry answer => ?_⟩
    · cases isKey.symm.trans isKey'
      cases found.symm.trans found'
      exact (right existing rfl).2.2
    · cases answer
      obtain ⟨member, own, _⟩ := findKeyed_some found
      exact ⟨member, own, fits (not_not.mp positive) key existing isKey found⟩
  · rename_i unused
    obtain ⟨⟨entry, after⟩, isPosted, same⟩ := Option.map_eq_some_iff.mp result
    cases same
    obtain ⟨entries, balance, rfl⟩ := logs _ _ isPosted
    refine ⟨unique.append_one entries fun key isKey => ?_, iff_of_true (fun other answer => ?_)
      fun _ key other isKey found => ?_⟩
    · exact (congrArg (fun own => own.bind (s.findKeyed posting.accountId))
        (show posting.idempotencyKey = some key from isKey)).symm.trans unused
    · cases answer
      refine ⟨?_, rfl, rfl, rfl⟩
      rw [entries]
      exact List.mem_append_right _ List.mem_cons_self
    · rw [isKey, Option.bind_some, found] at unused
      cases unused

theorem reverseCharge_iff {req : ReverseChargeRequest}
    {reply : Except LedgerError (Option LedgerEntry)} (wf : s.WellFormed) (unique : UniqueKeys s)
    (result : reverseCharge amb req s = some (reply, s')) :
    UniqueKeys s' ∧ ((∀ entry, reply = .ok (some entry) →
      Logged s' req.account .refund entry.deltaCredits entry) ↔
        (Call.reverseCharge req).KeysFit s) := by
  unfold reverseCharge at result
  split at result
  · rename_i absent
    cases result
    refine ⟨unique, iff_of_true (fun entry answer => ?_) fun entry found => ?_⟩
    · cases answer
    · obtain ⟨member, own, _⟩ := findKeyed_some found
      exact absurd (own ▸ wf.entryAccounts entry member) absent
  split at result
  · rename_i existing found
    cases result
    refine ⟨unique, fun right entry found' => ?_, fun fits entry answer => ?_⟩
    · cases found.symm.trans found'
      exact (right existing rfl).2.2.1
    · cases answer
      obtain ⟨member, own, _⟩ := findKeyed_some found
      exact ⟨member, own, fits existing found, rfl⟩
  rename_i unused
  have fits : (Call.reverseCharge req).KeysFit s := fun entry found => by
    cases unused.symm.trans found
  dsimp only at result
  split at result
  · cases result
    refine ⟨unique, iff_of_true (fun entry answer => ?_) fits⟩
    cases answer
  split at result
  · cases result
    refine ⟨unique, iff_of_true (fun entry answer => ?_) fits⟩
    cases answer
  obtain ⟨⟨entry, after⟩, isPosted, same⟩ := Option.map_eq_some_iff.mp result
  cases same
  obtain ⟨entries, balance, rfl⟩ := postCredit_logs isPosted
  refine ⟨unique.append_one entries fun key isKey => ?_, iff_of_true (fun other answer => ?_) fits⟩
  · cases isKey
    exact unused
  · cases answer
    refine ⟨?_, rfl, rfl, rfl⟩
    rw [entries]
    exact List.mem_append_right _ List.mem_cons_self

/-! ### Run voids -/

/-- The keys of a run void are new if those of the refunds it posts are. -/
theorem voidKeysFree_iff (amb : Ambient) (run : RunId) :
    VoidKeysFree s run ↔ ∀ refund ∈ s.due (runRefunds amb run s),
      Free s (s.refundOf amb refund) := by
  refine ⟨fun ⟨settles, charges⟩ refund member => ?_, fun free => ⟨?_, ?_⟩⟩
  · obtain ⟨considered, due⟩ := List.mem_filter.mp member
    rw [decide_eq_true_eq] at due
    rcases List.mem_append.mp considered with settled | charge
    · obtain ⟨reservation, hold, id, inside, status, link, rfl⟩ := mem_memberRefunds.mp settled
      obtain ⟨found, tagged⟩ := mem_runMembers.mp inside
      rintro key ⟨⟩
      exact settles reservation hold id found tagged status link due
    · obtain ⟨entry, inside, rfl⟩ := List.mem_map.mp charge
      obtain ⟨stored, tagged, kind⟩ := mem_runCharges.mp inside
      rintro key ⟨⟩
      exact charges entry stored tagged kind due
  · intro reservation hold id found tagged status link due
    refine free (id, settleRefund run reservation hold.account id) ?_ _ rfl
    refine List.mem_filter.mpr ⟨List.mem_append_left _ ?_, decide_eq_true due⟩
    exact mem_memberRefunds.mpr
      ⟨reservation, hold, id, mem_runMembers.mpr ⟨found, tagged⟩, status, link, rfl⟩
  · intro charge stored tagged kind due
    refine free (charge.id, chargeRefund run charge.accountId charge.id) ?_ _ rfl
    refine List.mem_filter.mpr ⟨List.mem_append_right _ ?_, decide_eq_true due⟩
    exact List.mem_map_of_mem (mem_runCharges.mpr ⟨stored, tagged, kind⟩)

/-- No two refunds of a run void share a key. -/
theorem refundOf_apart (wf : s.WellFormed) (amb : Ambient) (run : RunId) :
    ((s.due (runRefunds amb run s)).map (s.refundOf amb)).Pairwise fun first second =>
      first.accountId = second.accountId → first.idempotencyKey = second.idempotencyKey →
        first.idempotencyKey = none := by
  have distinct : (s.due (runRefunds amb run s)).Pairwise fun first second =>
      first.1 ≠ second.1 :=
    (List.pairwise_map.mp (runRefunds_nodup wf)).filter _
  refine List.pairwise_map.mpr (distinct.imp_of_mem fun {first second} firstIn secondIn apart => ?_)
  intro _ same
  exact absurd (runRefunds_key wf (List.mem_filter.mp firstIn).1 (List.mem_filter.mp secondIn).1 same)
    apart

/-- **A run void keeps keys unique exactly if those it needs are new.** -/
theorem voidRun_iff {run : RunId} {reply : Except LedgerError RunVoidSummary} (wf : s.WellFormed)
    (unique : UniqueKeys s) (result : voidRun amb run s = some (reply, s')) :
    UniqueKeys s' ↔ VoidKeysFree s run := by
  obtain ⟨next, returned, progress⟩ := voidRun_progress wf amb run
  cases result.symm.trans returned
  obtain ⟨posted, entries, same⟩ := progress.entries
  have free_iff : (∀ entry ∈ posted, Free s entry) ↔ VoidKeysFree s run := by
    rw [voidKeysFree_iff amb run]
    refine ⟨fun free refund member => ?_, fun free entry member => ?_⟩
    · have inside : s.refundOf amb refund ∈ posted.map LedgerEntry.unbalanced := by
        rw [same]
        exact List.mem_map_of_mem member
      obtain ⟨entry, isPosted, equal⟩ := List.mem_map.mp inside
      rw [← equal]
      exact free entry isPosted
    · have inside : entry.unbalanced ∈ (s.due (runRefunds amb run s)).map (s.refundOf amb) := by
        rw [← same]
        exact List.mem_map_of_mem member
      obtain ⟨refund, isDue, equal⟩ := List.mem_map.mp inside
      have isFree := free refund isDue
      rw [equal] at isFree
      exact isFree
  rw [← free_iff]
  refine ⟨fun unique' entry member => unique'.free entries member,
    fun free => unique.append entries free ?_⟩
  have apart := refundOf_apart wf amb run
  rw [← same] at apart
  exact List.pairwise_map.mp apart

/-! ### Every call -/

/-- A path that posts no reversal keeps keys unique. -/
theorem UniqueKeys.path {actions : List Action} (path : Path s actions s')
    (plain : ∀ action ∈ actions, ∀ entry, action ≠ .reverse entry) (unique : UniqueKeys s) :
    UniqueKeys s' := by
  induction path with
  | nil s => exact unique
  | cons action enabled _ ih =>
    refine ih (fun later member => plain later (List.mem_cons_of_mem _ member)) ?_
    have entries := fun state => Action.apply_entries state action
    cases action with
    | openAccount _ | place _ _ | release _ | extend _ _ => exact unique
    | credit entry => exact unique.append_one (entries _) enabled.2.1
    | charge entry => exact unique.append_one (entries _) enabled.2.1
    | settle reservation entry =>
      refine unique.append_one (entries _) fun key isKey => ?_
      cases enabled.2.2.2.2.1.symm.trans isKey
    | reverse entry => exact absurd rfl (plain _ List.mem_cons_self entry)
    | transfer out into =>
      obtain ⟨_, _, outKey, intoKey⟩ := enabled.plain
      refine unique.append (entries _) (fun entry member key isKey => ?_) ?_
      · rcases List.mem_pair.mp member with rfl | rfl
        · cases outKey.symm.trans isKey
        · cases intoKey.symm.trans isKey
      · exact List.pairwise_pair.mpr fun _ _ => outKey

end Calls

/-- A call that can post no reversal keeps keys unique. -/
theorem UniqueKeys.event {event : Event} {amb : Ambient} (wf : event.before.WellFormed)
    (occurs : event.Occurs amb) (plain : ∀ entry, ¬ event.call.Permits (.reverse entry))
    (unique : UniqueKeys event.before) : UniqueKeys event.after := by
  obtain ⟨actions, path, permitted⟩ := occurs.path wf
  refine unique.path path fun action member entry reverses => plain entry ?_
  rw [← reverses]
  exact permitted action member

/-- The outcome behind a reply. -/
theorem Outcome.of_reply_eq {α : Type} {outcome : Outcome α} {wrap : α → Reply}
    {reply : Except LedgerError Reply} {s' : State}
    (result : outcome.reply wrap = some (reply, s')) :
    ∃ answer, outcome = some (answer, s') ∧ reply = answer.map wrap := by
  obtain ⟨⟨answer, after⟩, returned, same⟩ := Option.map_eq_some_iff.mp result
  cases same
  exact ⟨answer, returned, rfl⟩

/-- What is asked of an answer with an entry, and of nothing else. -/
theorem answer_iff {right : Except LedgerError Reply → Prop} {P : LedgerEntry → Prop}
    (answered : ∀ entry, right (.ok (.entry entry)) ↔ P entry)
    (failed : ∀ error, right (.error error)) (answer : Except LedgerError LedgerEntry) :
    right (answer.map Reply.entry) ↔ ∀ entry, answer = .ok entry → P entry := by
  cases answer with
  | error error =>
    refine iff_of_true (failed error) fun entry same => ?_
    cases same
  | ok entry =>
    refine ⟨fun holds other same => ?_, fun all => (answered entry).mpr (all entry rfl)⟩
    cases same
    exact (answered entry).mp holds

/-- **One call**: from unique keys, keys stay unique and the answer is right exactly if the keys of
the call fit. -/
theorem keyed_step_iff {event : Event} {amb : Ambient} (wf : event.before.WellFormed)
    (occurs : event.Occurs amb) (unique : UniqueKeys event.before) :
    UniqueKeys event.after ∧ event.Right ↔ event.call.KeysFit event.before := by
  have kept := unique.event wf occurs
  obtain ⟨before, call, reply, after⟩ := event
  have result := occurs.result
  dsimp only at wf unique result kept ⊢
  cases call with
  | grant req =>
    obtain ⟨answer, returned, rfl⟩ := Outcome.of_reply_eq result
    obtain ⟨unique', right⟩ := postKeyed_iff (fun _ _ => postCredit_logs) wf unique returned
    refine (and_iff_right unique').trans (Iff.trans ?_ right)
    exact @answer_iff (fun reply => Event.Right ⟨before, .grant req, reply, after⟩) _
      (fun _ => Iff.rfl) (fun _ => trivial) answer
  | refund req =>
    obtain ⟨answer, returned, rfl⟩ := Outcome.of_reply_eq result
    obtain ⟨unique', right⟩ := postKeyed_iff (fun _ _ => postCredit_logs) wf unique returned
    refine (and_iff_right unique').trans (Iff.trans ?_ right)
    exact @answer_iff (fun reply => Event.Right ⟨before, .refund req, reply, after⟩) _
      (fun _ => Iff.rfl) (fun _ => trivial) answer
  | charge req =>
    obtain ⟨answer, returned, rfl⟩ := Outcome.of_reply_eq result
    obtain ⟨unique', right⟩ := postKeyed_iff (fun _ _ => postDebit_logs) wf unique returned
    refine (and_iff_right unique').trans (Iff.trans ?_ right)
    exact @answer_iff (fun reply => Event.Right ⟨before, .charge req, reply, after⟩) _
      (fun _ => Iff.rfl) (fun _ => trivial) answer
  | reverseCharge req =>
    obtain ⟨answer, returned, rfl⟩ := Outcome.of_reply_eq result
    obtain ⟨unique', right⟩ := reverseCharge_iff wf unique returned
    refine (and_iff_right unique').trans (Iff.trans ?_ right)
    rcases answer with error | _ | entry
    · refine iff_of_true trivial fun entry same => ?_
      cases same
    · refine iff_of_true trivial fun entry same => ?_
      cases same
    · refine ⟨fun holds other same => ?_, fun all => all entry rfl⟩
      cases same
      exact holds
  | voidRun run =>
    obtain ⟨answer, returned, rfl⟩ := Outcome.of_reply_eq result
    exact (and_iff_left trivial).trans (voidRun_iff wf unique returned)
  | _ => exact iff_of_true ⟨kept fun _ => id, trivial⟩ trivial

/-! ### Over whole histories -/

/-- From unique keys on, call by call. -/
theorem History.keys_iff {start s : State} {events : List Event} (history : History start events s)
    (wf : start.WellFormed) (unique : UniqueKeys start) :
    (∀ event ∈ events, UniqueKeys event.after ∧ event.Right) ↔
      ∀ event ∈ events, event.call.KeysFit event.before := by
  induction history with
  | nil s => exact iff_of_true (by simp) (by simp)
  | cons amb event occurs _ ih =>
    obtain ⟨actions, path, _⟩ := occurs.path wf
    have here := keyed_step_iff wf occurs unique
    rw [List.forall_mem_cons, List.forall_mem_cons]
    refine ⟨fun ⟨right, later⟩ => ?_, fun ⟨fits, later⟩ => ?_⟩
    · exact ⟨here.mp right, (ih (wf.path path) right.1).mp later⟩
    · have right := here.mpr fits
      exact ⟨right, (ih (wf.path path) right.1).mpr later⟩

/-- **When keys identify one posting of one kind.** In every history of calls with any arguments,
every state has at most one entry per account and key and every keyed call is answered right, exactly
if the keys of every call fit: the key is new on the account, or what is under it is of the type and
amount of the call; and a run void finds the keys it needs new. -/
theorem keys_identify_iff {events : List Event} {s : State}
    (history : History State.new events s) :
    (∀ event ∈ events, UniqueKeys event.after ∧ event.Right) ↔
      ∀ event ∈ events, event.call.KeysFit event.before :=
  history.keys_iff .new .new

/-- A grant and a charge, each under a key. -/
def keyedCalls (granted charged : String) : List (Ambient × Call) :=
  [.openAccount ⟨1, .user, true, none⟩, .grant ⟨1, 100, .paid, some granted⟩,
    .charge ⟨1, 5, none, some charged⟩].zipIdx.map fun call => (numbered call.2, call.1)

/-- Under two keys both are answered right. -/
theorem keys_identify_iff_apart : ∃ events s,
    perform State.new (keyedCalls "grant" "charge") = some (events, s) ∧
      ∀ event ∈ events, UniqueKeys event.after ∧ event.Right := by
  have computed : (perform State.new (keyedCalls "grant" "charge")).any (fun result =>
      decide (result.1.map (fun event => event.before.findKeyed 1 "grant") = [none, none,
          result.1[2]?.bind fun event => event.before.findKeyed 1 "grant"] ∧
        result.1.map (fun event => event.before.findKeyed 1 "charge") = [none, none, none])) =
      true := by
    decide +kernel
  obtain ⟨⟨events, s⟩, performed, facts⟩ := (Option.any_eq_true _ _).mp computed
  obtain ⟨granted, charged⟩ := of_decide_eq_true facts
  refine ⟨events, s, performed, (keys_identify_iff (history_of_perform performed)).mpr ?_⟩
  have calls := calls_of_perform performed
  obtain ⟨opened, rest, rfl, isOpened, calls⟩ := List.map_eq_cons_iff.mp calls
  obtain ⟨grants, rest, rfl, isGrant, calls⟩ := List.map_eq_cons_iff.mp calls
  obtain ⟨charges, rest, rfl, isCharge, calls⟩ := List.map_eq_cons_iff.mp calls
  cases List.map_eq_nil_iff.mp calls
  have newGrant : grants.before.findKeyed 1 "grant" = none :=
    (List.cons.inj (List.cons.inj granted).2).1
  have newCharge : charges.before.findKeyed 1 "charge" = none :=
    (List.cons.inj (List.cons.inj (List.cons.inj charged).2).2).1
  refine List.forall_mem_cons.mpr ⟨?_, List.forall_mem_cons.mpr ⟨?_,
    List.forall_mem_singleton.mpr ?_⟩⟩
  · rw [isOpened]
    trivial
  · rw [isGrant]
    rintro _ key entry ⟨⟩ found
    cases newGrant.symm.trans found
  · rw [isCharge]
    rintro _ key entry ⟨⟩ found
    cases newCharge.symm.trans found

/-- The type of the entry that a call was answered with. -/
def Event.answeredType (event : Event) : Option EntryType :=
  match event.reply with
  | .ok (.entry entry) => some entry.entryType
  | _ => none

/-- Under one key the charge is answered with the grant, and nothing is debited. -/
theorem charge_answered_with_grant : ∃ events s,
    perform State.new (keyedCalls "order" "order") = some (events, s) ∧
      History State.new events s ∧ s.settled 1 = 100 ∧ ∃ event ∈ events, ¬ event.Right := by
  have computed : (perform State.new (keyedCalls "order" "order")).any (fun result =>
      decide (result.2.settled 1 = 100 ∧
        result.1[2]?.bind Event.answeredType = some .grant)) = true := by
    decide +kernel
  obtain ⟨⟨events, s⟩, performed, facts⟩ := (Option.any_eq_true _ _).mp computed
  obtain ⟨balance, kind⟩ := of_decide_eq_true facts
  have calls := calls_of_perform performed
  obtain ⟨opened, rest, rfl, _, calls⟩ := List.map_eq_cons_iff.mp calls
  obtain ⟨grants, rest, rfl, _, calls⟩ := List.map_eq_cons_iff.mp calls
  obtain ⟨charges, rest, rfl, isCharge, calls⟩ := List.map_eq_cons_iff.mp calls
  cases List.map_eq_nil_iff.mp calls
  refine ⟨_, s, performed, history_of_perform performed, balance, charges, by simp, fun right => ?_⟩
  obtain ⟨before, call, reply, after⟩ := charges
  change call = _ at isCharge
  subst isCharge
  rcases reply with error | answer
  · cases kind
  cases answer with
  | entry answered => cases (Option.some.inj kind).symm.trans right.2.2.1
  | _ => cases kind

end Meter.Ledger
