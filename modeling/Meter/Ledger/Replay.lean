/-
**Retries.**

A keyed request is answered from the log: the first entry under its key and account, which no later
posting displaces. A settled reservation is answered from its hold, which no later call reopens.

* `Answered` — what a ledger keeps of a request that it answered with an entry. It holds after that
  answer (`answered_of_step`), along every path (`Answered.path`), and is all that the retry reads
  (`Answered.replays`).
* `keyed_replay` — **a retry after any further calls** returns the same entry, or for a reservation
  says whether its hold is still open, and changes nothing.
-/

import Meter.Ledger.Holds

namespace Meter.Ledger

open Meter.Lib

/-! ### Requests that can be sent again -/

/-- A request that carries an idempotency key, or settles a reservation. -/
def Call.Keyed : Call → Prop
  | .grant req => req.idempotencyKey.isSome
  | .refund req => req.idempotencyKey.isSome
  | .charge req => req.idempotencyKey.isSome
  | .reverseCharge _ | .settle _ => True
  | _ => False

/-- The entry that a request was answered with. -/
def entryOf : Except LedgerError Reply → Option LedgerEntry
  | .ok (.entry entry) => some entry
  | .ok (.reversal entry) => entry
  | _ => none

/-- The entry that closed a reservation, if it is settled. -/
def State.settlement (s : State) (reservation : ReservationId) : Option LedgerEntry :=
  (s.holds.get? reservation).bind fun hold =>
    if hold.status = .settled then
      hold.settleEntry.bind fun id => s.entries.find? fun entry => entry.id = id
    else none

/-- The log and the holds say that a request was answered with an entry. -/
def Answered (s : State) (entry : LedgerEntry) : Call → Prop
  | .grant req => 0 < req.amount ∧ s.accounts.contains req.account = true ∧
      ∃ key, req.idempotencyKey = some key ∧ s.findKeyed req.account key = some entry
  | .refund req => 0 < req.amount ∧ s.accounts.contains req.account = true ∧
      ∃ key, req.idempotencyKey = some key ∧ s.findKeyed req.account key = some entry
  | .charge req => 0 < req.amount ∧ s.accounts.contains req.account = true ∧
      ∃ key, req.idempotencyKey = some key ∧ s.findKeyed req.account key = some entry
  | .reverseCharge req => s.accounts.contains req.account = true ∧
      s.findKeyed req.account req.idempotencyKey = some entry
  | .settle req => ¬ req.actual < 0 ∧ ∃ hold, s.holds.get? req.reservationId = some hold ∧
      hold.status = .settled ∧ ∃ id, hold.settleEntry = some id ∧
        s.entries.find? (fun other => other.id = id) = some entry
  | _ => False

section Answers

variable {amb : Ambient} {s s' : State} {entry : LedgerEntry}

/-- What a posting leaves behind. -/
structure Appended (s : State) (posting : Posting) (entry : LedgerEntry) (s' : State) : Prop where
  own : entry.accountId = posting.accountId
  key : entry.idempotencyKey = posting.idempotencyKey
  entries : s'.entries = s.entries ++ [entry]
  holds : s'.holds = s.holds
  accounts : ∀ account, s'.accounts.contains account = s.accounts.contains account

theorem postCredit_appended {mint : Mint} {posting : Posting} {amount : Credit}
    (result : postCredit amb mint posting amount s = some (entry, s')) :
    Appended s posting entry s' := by
  cases found : s.accounts.get? posting.accountId with
  | none =>
    simp only [postCredit, modify_modify_eq_pay, State.get?_pay, found, Option.map_none,
      Option.bind_eq_bind, Option.bind_none] at result
    cases result
  | some row =>
    rw [postCredit_eq posting found] at result
    cases result
    exact ⟨rfl, rfl, rfl, rfl, fun account => State.contains_pay _ _ _ _ _⟩

theorem postDebit_appended {mint : Mint} {posting : Posting} {amount : Credit}
    (result : postDebit amb mint posting amount s = some (entry, s')) :
    Appended s posting entry s' ∧ entry.id = amb.entryId mint := by
  cases found : s.accounts.get? posting.accountId with
  | none =>
    simp only [postDebit, Table.get?_modify, if_pos, found, Option.map_none, Option.bind_eq_bind,
      Option.bind_none] at result
    cases result
  | some row =>
    rw [postDebit_eq posting found] at result
    cases result
    exact ⟨⟨rfl, rfl, rfl, rfl, fun account => State.contains_pay _ _ _ _ _⟩, rfl⟩

theorem postDebit_delta {mint : Mint} {posting : Posting} {amount : Credit}
    (result : postDebit amb mint posting amount s = some (entry, s')) :
    entry.deltaCredits = -amount := by
  obtain ⟨row, _, same⟩ := Option.bind_eq_some_iff.mp result
  cases same
  rfl

/-- A posting under a new key is the first under that key. -/
theorem Appended.findKeyed {posting : Posting} (appended : Appended s posting entry s')
    {key : String} (keyed : posting.idempotencyKey = some key)
    (unused : s.findKeyed posting.accountId key = none) :
    s'.findKeyed posting.accountId key = some entry := by
  rw [State.findKeyed] at unused ⊢
  rw [appended.entries, List.find?_append, unused, Option.none_or, List.find?_cons_of_pos]
  exact decide_eq_true ⟨appended.own, appended.key.trans keyed⟩

/-- **A keyed posting that was answered is the first under its key.** -/
theorem postKeyed_answered {post : Posting → Credit → State → Option (LedgerEntry × State)}
    (posting : Posting) {amount : Credit} {key : String}
    (appends : ∀ after, post posting amount s = some (entry, after) →
      Appended s posting entry after)
    (keyed : posting.idempotencyKey = some key)
    (result : postKeyed post posting amount s = some (.ok entry, s')) :
    0 < amount ∧ s'.accounts.contains posting.accountId = true ∧
      s'.findKeyed posting.accountId key = some entry := by
  unfold postKeyed at result
  split at result
  · cases result
  rename_i positive
  split at result
  · cases result
  rename_i present
  rw [keyed, Option.bind_some] at result
  cases used : s.findKeyed posting.accountId key with
  | some existing =>
    rw [used] at result
    cases result
    exact ⟨not_not.mp positive, not_not.mp present, used⟩
  | none =>
    rw [used] at result
    obtain ⟨⟨posted, after⟩, isPosted, same⟩ := Option.map_eq_some_iff.mp result
    cases same
    have appended := appends _ isPosted
    refine ⟨not_not.mp positive, ?_, appended.findKeyed keyed used⟩
    rw [appended.accounts]
    exact not_not.mp present

/-- **A keyed posting that is in the log already changes nothing.** -/
theorem postKeyed_replays (post : Posting → Credit → State → Option (LedgerEntry × State))
    {posting : Posting} {amount : Credit} {key : String}
    (keyed : posting.idempotencyKey = some key) (positive : 0 < amount)
    (present : s.accounts.contains posting.accountId = true)
    (found : s.findKeyed posting.accountId key = some entry) :
    postKeyed post posting amount s = some (.ok entry, s) := by
  rw [postKeyed, if_neg (not_not.mpr positive), if_neg (not_not.mpr present), keyed,
    Option.bind_some, found]

theorem reverseCharge_answered {req : ReverseChargeRequest}
    (result : reverseCharge amb req s = some (.ok (some entry), s')) :
    Answered s' entry (.reverseCharge req) := by
  unfold reverseCharge at result
  split at result
  · cases result
  rename_i present
  cases used : s.findKeyed req.account req.idempotencyKey with
  | some existing =>
    rw [used] at result
    cases result
    exact ⟨not_not.mp present, used⟩
  | none =>
    rw [used] at result
    dsimp only at result
    split at result
    · cases result
    split at result
    · cases result
    obtain ⟨⟨posted, after⟩, isPosted, same⟩ := Option.map_eq_some_iff.mp result
    cases same
    have appended := postCredit_appended isPosted
    refine ⟨?_, appended.findKeyed rfl used⟩
    rw [appended.accounts]
    exact not_not.mp present

theorem settle_answered (fresh : amb.Fresh s) {req : SettleRequest}
    (result : settle amb req s = some (.ok entry, s')) : Answered s' entry (.settle req) := by
  unfold settle at result
  split at result
  · cases result
  rename_i nonneg
  cases found : s.holds.get? req.reservationId with
  | none =>
    rw [found] at result
    cases result
  | some hold =>
    rw [found] at result
    dsimp only at result
    split at result
    · rename_i status
      obtain ⟨stored, isStored, same⟩ := Option.map_eq_some_iff.mp result
      cases same
      obtain ⟨id, link, isEntry⟩ := Option.bind_eq_some_iff.mp isStored
      exact ⟨nonneg, hold, found, status, id, link, isEntry⟩
    · cases result
    · obtain ⟨⟨posted, after⟩, isPosted, same⟩ := Option.map_eq_some_iff.mp result
      cases same
      obtain ⟨appended, isId⟩ := postDebit_appended isPosted
      refine ⟨nonneg, { hold with status := .settled, settleEntry := some posted.id }, ?_, rfl,
        posted.id, rfl, ?_⟩
      · simp [appended.holds, found]
      · -- the minted id is new, so no earlier entry is found instead
        have unknown : s.entries.find? (fun other => other.id = posted.id) = none := by
          rw [List.find?_eq_none]
          intro other stored same
          refine fresh.posting (isId ▸ ?_)
          rw [← of_decide_eq_true same]
          exact List.mem_map_of_mem stored
        show after.entries.find? _ = _
        rw [appended.entries, List.find?_append, unknown, Option.none_or, List.find?_cons_of_pos]
        exact decide_eq_true rfl

/-- **A settle** answers with the entry that closed the reservation, or closes it now. -/
theorem settle_cases (fresh : amb.Fresh s) {req : SettleRequest}
    (result : settle amb req s = some (.ok entry, s')) :
    s'.settlement req.reservationId = some entry ∧
      (s.settlement req.reservationId = some entry ∨
        s.settlement req.reservationId = none ∧ 0 ≤ req.actual ∧
          entry.deltaCredits = -req.actual) := by
  obtain ⟨nonneg, hold, found, status, id, link, isEntry⟩ := settle_answered fresh result
  have closed : s'.settlement req.reservationId = some entry := by
    rw [State.settlement, found, Option.bind_some, if_pos status, link]
    exact isEntry
  refine ⟨closed, ?_⟩
  unfold settle at result
  rw [if_neg nonneg] at result
  cases before : s.holds.get? req.reservationId with
  | none =>
    rw [before] at result
    cases result
  | some old =>
    rw [before] at result
    dsimp only at result
    split at result
    · obtain ⟨stored, _, same⟩ := Option.map_eq_some_iff.mp result
      cases same
      exact Or.inl closed
    · cases result
    · rename_i isOpen
      refine Or.inr ⟨?_, not_lt.mp nonneg, ?_⟩
      · rw [State.settlement, before, Option.bind_some, isOpen, if_neg (by decide)]
      · obtain ⟨⟨posted, after⟩, isPosted, same⟩ := Option.map_eq_some_iff.mp result
        cases same
        exact postDebit_delta isPosted

theorem entry_of_reply {outcome : Outcome LedgerEntry} {reply : Except LedgerError Reply}
    (result : outcome.reply .entry = some (reply, s')) (answers : entryOf reply = some entry) :
    outcome = some (.ok entry, s') := by
  obtain ⟨⟨answer, after⟩, returned, same⟩ := Option.map_eq_some_iff.mp result
  cases same
  cases answer with
  | error _ => cases answers
  | ok posted =>
    cases answers
    exact returned

theorem reversal_of_reply {outcome : Outcome (Option LedgerEntry)}
    {reply : Except LedgerError Reply} (result : outcome.reply .reversal = some (reply, s'))
    (answers : entryOf reply = some entry) : outcome = some (.ok (some entry), s') := by
  obtain ⟨⟨answer, after⟩, returned, same⟩ := Option.map_eq_some_iff.mp result
  cases same
  cases answer with
  | error _ => cases answers
  | ok posted =>
    have isEntry : posted = some entry := answers
    rw [← isEntry]
    exact returned

/-- **What a ledger keeps of an answer.** -/
theorem answered_of_step (fresh : amb.Fresh s) {call : Call} (keyed : call.Keyed)
    {reply : Except LedgerError Reply} (result : step amb call s = some (reply, s'))
    (answers : entryOf reply = some entry) : Answered s' entry call := by
  cases call with
  | grant req =>
    obtain ⟨key, isKey⟩ := Option.isSome_iff_exists.mp keyed
    obtain ⟨positive, present, found⟩ := postKeyed_answered req.posting
      (fun _ => postCredit_appended) isKey (entry_of_reply result answers)
    exact ⟨positive, present, key, isKey, found⟩
  | refund req =>
    obtain ⟨key, isKey⟩ := Option.isSome_iff_exists.mp keyed
    obtain ⟨positive, present, found⟩ := postKeyed_answered req.posting
      (fun _ => postCredit_appended) isKey (entry_of_reply result answers)
    exact ⟨positive, present, key, isKey, found⟩
  | charge req =>
    obtain ⟨key, isKey⟩ := Option.isSome_iff_exists.mp keyed
    obtain ⟨positive, present, found⟩ := postKeyed_answered req.posting
      (fun _ posted => (postDebit_appended posted).1) isKey (entry_of_reply result answers)
    exact ⟨positive, present, key, isKey, found⟩
  | reverseCharge req => exact reverseCharge_answered (reversal_of_reply result answers)
  | settle req => exact settle_answered fresh (entry_of_reply result answers)
  | _ => exact keyed.elim

/-- **No later call displaces an answer.** -/
theorem Answered.path {call : Call} {actions : List Action} (path : Path s actions s')
    (answered : Answered s entry call) : Answered s' entry call := by
  have kept : ∀ {account}, s.accounts.contains account = true →
      s'.accounts.contains account = true := by
    intro account present
    obtain ⟨row, found⟩ := Table.contains_iff.mp present
    obtain ⟨row', found', _⟩ := path.account found
    exact Table.contains_iff.mpr ⟨row', found'⟩
  cases call with
  | grant req | refund req | charge req =>
    obtain ⟨positive, present, key, isKey, found⟩ := answered
    exact ⟨positive, kept present, key, isKey, State.findKeyed_append path.entries found⟩
  | reverseCharge req =>
    exact ⟨kept answered.1, State.findKeyed_append path.entries answered.2⟩
  | settle req =>
    obtain ⟨nonneg, hold, found, status, id, link, isEntry⟩ := answered
    obtain ⟨new, found', evolves⟩ := path.hold found
    obtain ⟨status', link'⟩ := evolves.closed (by rw [status]; decide)
    refine ⟨nonneg, new, found', status'.trans status, id, link'.trans link, ?_⟩
    rw [path.entries, List.find?_append, isEntry, Option.some_or]
  | _ => exact answered.elim

/-- **A retry reads the answer and changes nothing.** -/
theorem Answered.replays {call : Call} (answered : Answered s entry call) (amb : Ambient) :
    ∃ reply, step amb call s = some (reply, s) ∧ entryOf reply = some entry := by
  cases call with
  | grant req =>
    obtain ⟨positive, present, key, isKey, found⟩ := answered
    refine ⟨.ok (.entry entry), ?_, rfl⟩
    rw [step, grant, postKeyed_replays _ isKey positive present found]
    rfl
  | refund req =>
    obtain ⟨positive, present, key, isKey, found⟩ := answered
    refine ⟨.ok (.entry entry), ?_, rfl⟩
    rw [step, refund, postKeyed_replays _ isKey positive present found]
    rfl
  | charge req =>
    obtain ⟨positive, present, key, isKey, found⟩ := answered
    refine ⟨.ok (.entry entry), ?_, rfl⟩
    rw [step, charge, postKeyed_replays _ isKey positive present found]
    rfl
  | reverseCharge req =>
    refine ⟨.ok (.reversal (some entry)), ?_, rfl⟩
    rw [step, reverseCharge, if_neg (not_not.mpr answered.1), answered.2]
    rfl
  | settle req =>
    obtain ⟨nonneg, hold, found, status, id, link, isEntry⟩ := answered
    refine ⟨.ok (.entry entry), ?_, rfl⟩
    simp only [step, settle, if_neg nonneg, found, status, link, Option.bind_some, isEntry]
    rfl
  | _ => exact answered.elim

/-! ### Reservations -/

/-- A reservation that is allowed has its hold. -/
theorem reserve_allowed {req : ReserveRequest} {reservation : ReservationId}
    (result : reserve req s = some (.ok (.allowed reservation), s')) :
    reservation = req.reservationId ∧ 0 < req.amount ∧ s'.accounts.contains req.account = true ∧
      ∃ hold, s'.holds.get? req.reservationId = some hold := by
  unfold reserve at result
  split at result
  · cases result
  rename_i positive
  cases found : s.accounts.get? req.account with
  | none =>
    rw [found] at result
    cases result
  | some row =>
    rw [found] at result
    have present := Table.contains_iff.mpr ⟨row, found⟩
    dsimp only at result
    cases isHold : s.holds.get? req.reservationId with
    | some hold =>
      rw [isHold] at result
      dsimp only at result
      split at result
      · cases result
        exact ⟨rfl, not_not.mp positive, present, hold, isHold⟩
      · cases result
    | none =>
      rw [isHold] at result
      dsimp only at result
      split at result
      · cases result
      · cases result
        exact ⟨rfl, not_not.mp positive, present, _, by rw [Table.get?_set, if_pos rfl]⟩

/-- **A reservation that has its hold places no other.** -/
theorem reserve_replays {req : ReserveRequest} (positive : 0 < req.amount)
    (present : s.accounts.contains req.account = true) {hold : Hold}
    (found : s.holds.get? req.reservationId = some hold) :
    reserve req s = some (if hold.status = .open then .ok (.allowed req.reservationId)
      else .error (.reservationClosed req.reservationId), s) := by
  obtain ⟨row, isRow⟩ := Table.contains_iff.mp present
  rw [reserve, if_neg (not_not.mpr positive), isRow, found]
  dsimp only
  split
  · rfl
  · rfl

end Answers

/-! ### Over whole histories -/

/-- **Keyed replay.** After any history, a request that was answered with an entry is answered with
that entry again, and a reservation that was allowed is allowed again while its hold is open and
refused after; and the state stays as it is. -/
theorem keyed_replay {events : List Event} {s : State} (history : History State.new events s)
    {event : Event} (member : event ∈ events) :
    (∀ entry, event.call.Keyed → entryOf event.reply = some entry → ∀ amb,
      ∃ reply, step amb event.call s = some (reply, s) ∧ entryOf reply = some entry) ∧
    ∀ req reservation, event.call = .reserve req →
      event.reply = .ok (.reserve (.allowed reservation)) →
      ∃ hold, s.holds.get? req.reservationId = some hold ∧ ∀ amb,
        step amb (.reserve req) s = some (if hold.status = .open then
          .ok (.reserve (.allowed reservation))
          else .error (.reservationClosed req.reservationId), s) := by
  obtain ⟨before, after, amb, earlier, occurs, later, _⟩ := history.split member
  have wf := earlier.wellFormed .new
  obtain ⟨actions, path, _⟩ := occurs.path wf
  obtain ⟨steps, rest, _⟩ := later.path (wf.path path)
  refine ⟨fun entry keyed answers amb' => ?_, fun req reservation isReserve allowed => ?_⟩
  · have answered := answered_of_step occurs.callable.fresh keyed occurs.result answers
    exact (answered.path rest).replays amb'
  · have result := occurs.result
    rw [isReserve, allowed] at result
    obtain ⟨⟨answer, next⟩, returned, same⟩ := Option.map_eq_some_iff.mp result
    have isAnswer : answer = .ok (.allowed reservation) := by
      cases answer with
      | error _ => cases same
      | ok outcome =>
        cases same
        rfl
    have isAfter : next = event.after := congrArg Prod.snd same
    rw [isAnswer, isAfter] at returned
    obtain ⟨rfl, positive, present, hold, found⟩ := reserve_allowed returned
    obtain ⟨row, isRow⟩ := Table.contains_iff.mp present
    obtain ⟨row', isRow', _⟩ := rest.account isRow
    obtain ⟨new, found', _⟩ := rest.hold found
    refine ⟨new, found', fun amb' => ?_⟩
    rw [step, reserve_replays positive (Table.contains_iff.mpr ⟨row', isRow'⟩) found']
    by_cases isOpen : new.status = .open
    · rw [if_pos isOpen, if_pos isOpen]
      rfl
    · rw [if_neg isOpen, if_neg isOpen]
      rfl

/-- A keyed charge and a reservation of one run, the run voided, and another request under the key
of the charge. -/
def retryCalls : List (Ambient × Call) :=
  [.openAccount ⟨1, .user, true, none⟩, .grant ⟨1, 100, .paid, some "g"⟩,
    .charge ⟨1, 5, some 7, some "c"⟩, .reserve ⟨1, 11, 30, .hard, none, some 7⟩,
    .voidRun 7, .refund ⟨1, 2, none, some "c"⟩].zipIdx.map fun call => (numbered call.2, call.1)

/-- The charge is answered with its own entry again, and the reservation is closed. -/
theorem keyed_replay_sample : ∃ events s, replay State.new retryCalls = some (events, s) ∧
    s.entries.length = 3 ∧
    (∃ event ∈ events, ∃ entry, event.call.Keyed ∧ entryOf event.reply = some entry ∧
      entry.entryType = .usage ∧
      ∃ reply, step (numbered 9) event.call s = some (reply, s) ∧ entryOf reply = some entry) ∧
    step (numbered 9) (.reserve ⟨1, 11, 30, .hard, none, some 7⟩) s =
      some (.error (.reservationClosed 11), s) := by
  have computed : (replay State.new retryCalls).any (fun result =>
      decide (result.2.entries.length = 3 ∧
        (result.2.holds.get? 11).map Hold.status = some .voided ∧
        (result.1[2]?.bind fun event => entryOf event.reply).map LedgerEntry.entryType =
          some .usage ∧
        result.1[3]?.map Event.reply = some (.ok (.reserve (.allowed 11))))) = true := by
    decide +kernel
  obtain ⟨⟨events, s⟩, replayed, facts⟩ := (Option.any_eq_true _ _).mp computed
  obtain ⟨count, status, kind, allowed⟩ := of_decide_eq_true facts
  have history := (run_of_replay replayed).history
  have call : ∀ {index : Nat} {event : Event}, events[index]? = some event →
      (retryCalls.map Prod.snd)[index]? = some event.call := by
    intro index event found
    rw [← calls_of_replay replayed, List.getElem?_map, found]
    rfl
  refine ⟨events, s, replayed, count, ?_, ?_⟩
  · obtain ⟨entry, isEntry, usage⟩ := Option.map_eq_some_iff.mp kind
    obtain ⟨event, found, answers⟩ := Option.bind_eq_some_iff.mp isEntry
    have member := List.mem_of_getElem? found
    have keyed : event.call.Keyed := by
      rw [← Option.some.inj (call found)]
      rfl
    exact ⟨event, member, entry, keyed, answers, usage,
      (keyed_replay history member).1 entry keyed answers (numbered 9)⟩
  · obtain ⟨event, found, isReply⟩ := Option.map_eq_some_iff.mp allowed
    obtain ⟨hold, isHold, replays⟩ := (keyed_replay history (List.mem_of_getElem? found)).2 _ 11
      (Option.some.inj (call found)).symm isReply
    rw [isHold, Option.map_some, Option.some.injEq] at status
    rw [replays, if_neg (by rw [status]; decide)]

end Meter.Ledger
