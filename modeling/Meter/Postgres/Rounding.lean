/-
**Books and replays under rounding.**

A `numeric(30, 5)` column rounds the balance and the delta of a posting separately, and the entry
that a call returns is not rounded at all. As long as every posted amount has five decimals the three
agree:

* `Tallied` — every balance is the sum of the stored deltas, and `balance_after` the running sum, the
  system account included;
* `Replays` — a keyed request that was answered with an entry is answered with the same entry, to the
  last decimal, whatever was served in between.

A charge of half a hundred-thousandth is enough to break the first (`halfCharge`).
-/

import Meter.Ledger.Books
import Meter.Postgres.Serial

namespace Meter.Postgres

open Meter.Lib Meter.Ledger

/-! ### What is to hold -/

/-- Every balance is the sum of the account's deltas, and every `balance_after` the sum up to it. -/
structure Tallied (db : State) : Prop where
  settled : ∀ {account row}, db.accounts.get? account = some row →
    row.settled = deltas db.entries account
  running : ∀ before entry after, db.entries = before ++ entry :: after →
    entry.balanceAfter = deltas (before ++ [entry]) entry.accountId

/-- The database after some calls, served one by one. -/
def served (turns : List (Ambient × Call)) : State :=
  turns.foldl (fun db turn => (serve turn.1 turn.2 db).2) State.new

theorem served_concat (turns : List (Ambient × Call)) (turn : Ambient × Call) :
    served (turns ++ [turn]) = (serve turn.1 turn.2 (served turns)).2 := by
  rw [served, List.foldl_append]
  rfl

/-- The posting of a keyed request, with its amount and its delta. -/
def Call.keyed : Call → Option (Posting × Credit × Credit)
  | .grant req => some (req.posting, req.amount, req.amount)
  | .refund req => some (req.posting, req.amount, req.amount)
  | .charge req => some (req.posting, req.amount, -req.amount)
  | _ => none

/-- The key of a request. -/
def Call.key (call : Call) : Option String := (Call.keyed call).bind fun keyed => keyed.1.idempotencyKey

/-- A keyed request that was answered with an entry is answered with it ever after. -/
def Replays (turns : List (Ambient × Call)) : Prop :=
  ∀ first turn later, first ++ [turn] <+: later → later <+: turns → Call.key turn.2 ≠ none →
    ∀ entry, (serve turn.1 turn.2 (served first)).1 = .ok (.entry entry) →
      ∀ amb, serve amb turn.2 (served later) = (.ok (.entry entry), served later)

/-- The amount that a call posts has five decimals. -/
def Call.PostsScaled : Call → Prop
  | .grant req => Exact req.amount
  | .refund req => Exact req.amount
  | .settle req => Exact req.actual
  | .charge req => Exact req.amount
  | .openLease req => Exact req.amount
  | .openAccount _ | .balance _ | .reverseCharge _ | .reserve _ | .void _ | .voidExpiredHolds _
  | .extendHold _ _ | .voidRun _ | .closeLease _ | .entries _ => True

instance (call : Call) : Decidable (Call.PostsScaled call) :=
  match call with
  | .grant req => inferInstanceAs (Decidable (Exact req.amount))
  | .refund req => inferInstanceAs (Decidable (Exact req.amount))
  | .settle req => inferInstanceAs (Decidable (Exact req.actual))
  | .charge req => inferInstanceAs (Decidable (Exact req.amount))
  | .openLease req => inferInstanceAs (Decidable (Exact req.amount))
  | .openAccount _ | .balance _ | .reverseCharge _ | .reserve _ | .void _ | .voidExpiredHolds _
  | .extendHold _ _ | .voidRun _ | .closeLease _ | .entries _ => isTrue trivial

/-! ### Books -/

section

variable {focus : Option RunId} {scaled : Prop} {locks : List Lock} {db : State}

theorem Tallied.new : Tallied State.new where
  settled := by
    intro account row found
    rw [State.new, Table.get?_set] at found
    split at found
    · cases found
      rfl
    · cases found
  running := by
    intro before entry after split
    exact absurd split.symm (by simp [State.new])

/-- The entries before the last one keep their running sums. -/
theorem running_append {entries : List LedgerEntry} {last : LedgerEntry}
    (running : ∀ before entry after, entries = before ++ entry :: after →
      entry.balanceAfter = deltas (before ++ [entry]) entry.accountId)
    (truthful : last.balanceAfter = deltas entries last.accountId + last.deltaCredits) :
    ∀ before entry after, entries ++ [last] = before ++ entry :: after →
      entry.balanceAfter = deltas (before ++ [entry]) entry.accountId := by
  intro before entry after split
  rcases List.eq_nil_or_concat after with rfl | ⟨rest, other, rfl⟩
  · obtain ⟨rfl, same⟩ := List.append_inj' split rfl
    cases same
    rw [truthful, deltas_append_singleton, if_pos rfl]
  · rw [List.concat_eq_append, ← List.cons_append, ← List.append_assoc] at split
    exact running before entry rest (List.append_inj' split rfl).1

/-- A balance that moves with an entry stays the sum of the deltas. -/
theorem settled_append {accounts : Table AccountId AccountRow} {entries : List LedgerEntry}
    (settled : ∀ {account row}, accounts.get? account = some row →
      row.settled = deltas entries account) {entry : LedgerEntry}
    (truthful : entry.balanceAfter = deltas entries entry.accountId + entry.deltaCredits)
    {account : AccountId} {row : AccountRow}
    (found : (accounts.modify entry.accountId fun row =>
      { row with settled := entry.balanceAfter }).get? account = some row) :
    row.settled = deltas (entries ++ [entry]) account := by
  rw [deltas_append_singleton]
  rw [Table.get?_modify] at found
  split at found
  · rename_i same
    obtain ⟨old, foundOld, rfl⟩ := Option.map_eq_some_iff.mp found
    rw [if_pos same.symm, same]
    exact truthful
  · rename_i different
    rw [if_neg (Ne.symm different), add_zero]
    exact settled found

/-- With five decimals the stored balance is the old one and the stored delta. -/
theorem Stores.truthful {amount : Credit} {entry : LedgerEntry} (intact : Intact db)
    (isScaled : scaled) (tallied : Tallied db) (stores : Stores scaled locks db amount entry) :
    entry.balanceAfter = deltas db.entries entry.accountId + entry.deltaCredits := by
  have exact := stores.scale isScaled
  obtain ⟨row, found, balance⟩ := stores.row
  rw [balance, stores.delta, round5_of_exact exact,
    round5_of_exact ((intact.scaled.settled found).add exact), tallied.settled found]

theorem Tallied.post {entry : LedgerEntry} (tallied : Tallied db)
    (truthful : entry.balanceAfter = deltas db.entries entry.accountId + entry.deltaCredits) :
    Tallied (after db [.setSettled entry.accountId entry.balanceAfter, .insertEntry entry]) :=
  ⟨settled_append tallied.settled truthful, running_append tallied.running truthful⟩

/-- **Every legal action of exact amounts keeps the books.** -/
theorem Tallied.store {action : Action} (intact : Intact db) (isScaled : scaled)
    (legal : Legal focus scaled locks db action) (tallied : Tallied db) :
    Tallied (Action.store db action) := by
  cases action with
  | openAccount account =>
    obtain ⟨absent, _⟩ := legal
    refine ⟨fun {other row} found => ?_, tallied.running⟩
    change (db.accounts.set account.id (AccountRow.new account)).get? other = some row at found
    rw [Table.get?_set] at found
    split at found
    · rename_i same
      cases found
      rw [same]
      -- an account without a row has no entries yet
      have none : db.entries.filter (fun entry => entry.accountId = account.id) = [] := by
        refine List.filter_eq_nil_iff.mpr fun entry member own => ?_
        have present := intact.wellFormed.entryAccounts entry member
        rw [of_decide_eq_true own, Table.contains_iff] at present
        obtain ⟨row, present⟩ := present
        rw [absent] at present
        cases present
      show (0 : Credit) = deltas db.entries account.id
      rw [deltas, none]
      rfl
    · exact tallied.settled found
  | credit entry | charge entry | reverse entry =>
    obtain ⟨amount, _, stores, _⟩ := legal
    exact tallied.post (stores.truthful intact isScaled tallied)
  | settle reservation entry =>
    obtain ⟨amount, _, stores, _⟩ := legal
    have posted := tallied.post (stores.truthful intact isScaled tallied)
    exact ⟨posted.settled, posted.running⟩
  | transfer out into =>
    obtain ⟨amount, stores⟩ := legal
    have exact := stores.scale isScaled
    obtain ⟨payer, foundPayer, payerBalance, _⟩ := stores.payer
    obtain ⟨payee, foundPayee, payeeBalance⟩ := stores.payee
    have outTrue : out.balanceAfter = deltas db.entries out.accountId + out.deltaCredits := by
      rw [payerBalance, stores.deltas.1, round5_of_exact exact.neg,
        round5_of_exact ((intact.scaled.settled foundPayer).add exact.neg), tallied.settled foundPayer]
    have intoTrue : into.balanceAfter =
        deltas (db.entries ++ [out]) into.accountId + into.deltaCredits := by
      rw [payeeBalance, stores.deltas.2, round5_of_exact exact,
        round5_of_exact ((intact.scaled.settled foundPayee).add exact), tallied.settled foundPayee,
        deltas_append_singleton, if_neg (Ne.symm stores.different), add_zero]
    have both : Tallied (after (after db [.setSettled out.accountId out.balanceAfter,
        .insertEntry out]) [.setSettled into.accountId into.balanceAfter, .insertEntry into]) :=
      (tallied.post outTrue).post intoTrue
    exact ⟨both.settled, both.running⟩
  | place reservation hold | extend reservation expiresAt => exact ⟨tallied.settled, tallied.running⟩
  | release reservations =>
    obtain ⟨reservation, rfl, _⟩ := legal
    exact ⟨tallied.settled, tallied.running⟩

end

/-! ### Served calls -/

section

variable {db : State}

/-- A reserve writes holds only. -/
theorem serve_reserve (amb : Ambient) (req : ReserveRequest) :
    (serve amb (.reserve req) db).2.accounts = db.accounts ∧
      (serve amb (.reserve req) db).2.entries = db.entries := by
  let Q (result : Except LedgerError Reply × State) : Prop :=
    result.2.accounts = db.accounts ∧ result.2.entries = db.entries
  show Q (serve amb (.reserve req) db)
  rw [serve, program]
  dsimp only
  rw [reserve]
  split
  · exact ⟨rfl, rfl⟩
  · refine Engine.runSerial_issue (engine false) (Q := Q) (fun _ _ => ⟨rfl, rfl⟩) ?_
    intro locked more executed
    obtain rfl := (Prod.mk.inj (Except.ok.inj executed)).2
    cases locked with
    | none => exact ⟨rfl, rfl⟩
    | some row =>
      refine Engine.runSerial_issue (engine false) (Q := Q) (fun _ _ => ⟨rfl, rfl⟩) ?_
      intro stored more executed
      obtain rfl := (Prod.mk.inj (Except.ok.inj executed)).2
      cases stored with
      | some hold =>
        show Q (Engine.runSerial _ _ (Prog.bind (if hold.status = .open then _ else _) _) _ _)
        split <;> exact ⟨rfl, rfl⟩
      | none =>
        refine Engine.runSerial_issue (engine false) (Q := Q) (fun _ _ => ⟨rfl, rfl⟩) ?_
        intro held more executed
        obtain rfl := (Prod.mk.inj (Except.ok.inj executed)).2
        show Q (Engine.runSerial _ _ (Prog.bind (if _ then _ else _) _) _ _)
        split
        · exact ⟨rfl, rfl⟩
        · refine Engine.runSerial_issue (engine false) (Q := Q) (fun _ _ => ⟨rfl, rfl⟩) ?_
          intro answer more executed
          have inserted : (Stmt.insertHold req.reservationId { req with
              status := .open, settleEntry := none }).exec db = .ok (answer, more) := executed
          obtain ⟨rfl, _⟩ := exec_insertHold inserted
          exact ⟨rfl, rfl⟩

theorem scaled_of_postsScaled {call : Call} (posts : Call.PostsScaled call)
    (other : ∀ req, call ≠ .reserve req) : Call.Scaled call := by
  cases call with
  | reserve req => exact absurd rfl (other req)
  | _ => exact posts

/-- **A served call of exact amounts keeps the books.** -/
theorem serve_tallied (intact : Intact db) (tallied : Tallied db) (amb : Ambient) {call : Call}
    (posts : Call.PostsScaled call) : Tallied (serve amb call db).2 := by
  by_cases reserves : ∃ req, call = .reserve req
  · obtain ⟨req, rfl⟩ := reserves
    obtain ⟨accounts, entries⟩ := @serve_reserve db amb req
    exact ⟨by rw [accounts, entries]; exact tallied.settled, by rw [entries]; exact tallied.running⟩
  · have isScaled := scaled_of_postsScaled posts fun req same => reserves ⟨req, same⟩
    obtain ⟨locks, actions, legals, same, _⟩ := serve_stores intact amb call
    rw [same]
    exact (legals.invariant (P := fun db => Intact db ∧ Tallied db)
      (fun _ _ both legal => ⟨legal.intact both.1, both.2.store both.1 isScaled legal⟩)
      ⟨intact, tallied⟩).2

theorem serve_grows (intact : Intact db) (amb : Ambient) (call : Call) :
    Grows db (serve amb call db).2 := by
  obtain ⟨locks, actions, legals, same, _⟩ := serve_stores intact amb call
  rw [same]
  exact legals.grows

/-- The transaction of a keyed request. -/
theorem program_keyed {call : Call} {posting : Posting} {amount delta : Credit}
    (keyed : Call.keyed call = some (posting, amount, delta)) (amb : Ambient) :
    program (amb, call) = replying (postKeyed amb posting amount delta) .entry := by
  cases call with
  | grant req | refund req | charge req =>
    cases keyed
    rfl
  | _ => cases keyed

/-- The entry that a request with a key is answered with from now on. -/
structure Answered (db : State) (posting : Posting) (amount : Credit) (key : String)
    (entry : LedgerEntry) : Prop where
  positive : 0 < amount
  present : db.accounts.contains posting.accountId = true
  found : db.findKeyed posting.accountId key = some entry

/-- **A used key answers with its entry and changes nothing.** -/
theorem Answered.serve {call : Call} {posting : Posting} {amount delta : Credit} {key : String}
    {entry : LedgerEntry} (keyed : Call.keyed call = some (posting, amount, delta))
    (own : posting.idempotencyKey = some key) (answered : Answered db posting amount key entry)
    (amb : Ambient) : serve amb call db = (.ok (.entry entry), db) := by
  obtain ⟨row, found⟩ := Table.contains_iff.mp answered.present
  have existing : findExisting posting = .issue (.findKeyed posting.accountId key) := by
    rw [findExisting, own]
  have posted : (engine false).Yields (postKeyed amb posting amount delta) db
      (.commit (.ok entry)) [] := by
    rw [postKeyed, if_neg (not_not.mpr answered.positive)]
    refine Engine.Yields.read (engine false)
      (congrArg (fun row => Except.ok (row, ([] : List Write))) found) ?_
    rw [existing]
    exact Engine.Yields.read (engine false)
      (congrArg (fun entry => Except.ok (entry, ([] : List Write))) answered.found)
      (Engine.Yields.done _ _)
  have transaction : (engine false).Yields (program (amb, call)) db
      (.commit (.ok (.entry entry))) [] := by
    rw [program_keyed keyed]
    exact Engine.Yields.bind (engine false) posted (Engine.Yields.done _ _) rfl
  rw [Postgres.serve, (engine false).runSerial_of_yields transaction]
  rfl

theorem Answered.mono {db' : State} {posting : Posting} {amount : Credit} {key : String}
    {entry : LedgerEntry} (grows : Grows db db') (answered : Answered db posting amount key entry) :
    Answered db' posting amount key entry where
  positive := answered.positive
  present := by
    obtain ⟨row, found⟩ := Table.contains_iff.mp answered.present
    obtain ⟨row', found', _⟩ := grows.account found
    exact Table.contains_iff.mpr ⟨row', found'⟩
  found := by
    obtain ⟨more, same⟩ := grows.entries
    have found := answered.found
    rw [State.findKeyed] at found ⊢
    rw [← same, List.find?_append, found]
    rfl

/-- **An answered request with an exact amount**: the entry is stored as it was returned. -/
theorem answered_of_serve {call : Call} {posting : Posting} {amount delta : Credit}
    {key : String} {entry : LedgerEntry} {amb : Ambient}
    (keyed : Call.keyed call = some (posting, amount, delta)) (isScaled : Exact delta)
    (own : posting.idempotencyKey = some key)
    (replied : (serve amb call db).1 = .ok (.entry entry)) :
    Answered (serve amb call db).2 posting amount key entry := by
  let Q (result : Except LedgerError Reply × State) : Prop :=
    result.1 = .ok (.entry entry) → Answered result.2 posting amount key entry
  suffices answered : Q (serve amb call db) from answered replied
  have existing : findExisting posting = .issue (.findKeyed posting.accountId key) := by
    rw [findExisting, own]
  rw [serve, program_keyed keyed, postKeyed]
  split
  · rintro ⟨⟩
  · rename_i positive
    refine Engine.runSerial_issue (engine false) (Q := Q) (fun _ _ => by rintro ⟨⟩) ?_
    intro locked more executed
    obtain ⟨found, rfl⟩ := Prod.mk.inj (Except.ok.inj executed)
    cases locked with
    | none => rintro ⟨⟩
    | some row =>
      have present : db.accounts.contains posting.accountId = true :=
        Table.contains_iff.mpr ⟨row, found⟩
      rw [existing]
      refine Engine.runSerial_issue (engine false) (Q := Q) (fun _ _ => by rintro ⟨⟩) ?_
      intro stored more executed
      obtain ⟨isStored, rfl⟩ := Prod.mk.inj (Except.ok.inj executed)
      cases stored with
      | some old =>
        rintro ⟨⟩
        exact ⟨not_not.mp positive, present, isStored⟩
      | none =>
        refine Engine.runSerial_issue (engine false) (Q := Q) (fun _ _ => by rintro ⟨⟩) ?_
        intro balance more executed
        have added : (Stmt.addSettled posting.accountId delta).exec db = .ok (balance, more) :=
          executed
        obtain ⟨row, found, isBalance, rfl⟩ := exec_addSettled added
        refine Engine.runSerial_issue (engine false) (Q := Q) (fun _ _ => by rintro ⟨⟩) ?_
        intro answer more executed
        have inserted : (Stmt.insertEntry (postingEntry posting amb .posting delta balance)).exec
            (Write.apply db (.setSettled posting.accountId balance)) = .ok (answer, more) := executed
        obtain ⟨rfl, _⟩ := exec_insertEntry inserted
        rintro ⟨⟩
        -- the amounts are exact, so the stored row is the returned one
        have exactly : roundedEntry (postingEntry posting amb .posting delta balance) =
            postingEntry posting amb .posting delta balance := by
          have balanced : round5 balance = balance := by
            rw [isBalance]
            exact round5_of_exact (exact_round5 _)
          show { postingEntry posting amb .posting delta balance with
            deltaCredits := round5 delta, balanceAfter := round5 balance } = _
          rw [round5_of_exact isScaled, balanced]
          rfl
        rw [exactly]
        refine ⟨not_not.mp positive, (Table.contains_mapValues _ _ _).trans present, ?_⟩
        show (db.entries ++ [postingEntry posting amb .posting delta balance]).find? _ = _
        have unused : db.entries.find? (fun entry => entry.accountId = posting.accountId ∧
            entry.idempotencyKey = some key) = none := isStored
        rw [List.find?_append, unused, Option.none_or]
        refine List.find?_cons_of_pos (decide_eq_true ⟨rfl, own⟩)

end

/-! ### Runs -/

/-- **After calls of exact amounts the books are tallied.** -/
theorem served_tallied {turns : List (Ambient × Call)}
    (posts : ∀ turn ∈ turns, Call.PostsScaled turn.2) :
    Intact (served turns) ∧ Tallied (served turns) := by
  induction turns using List.reverseRecOn with
  | nil => exact ⟨.new, .new⟩
  | append_singleton turns turn ih =>
    obtain ⟨intact, tallied⟩ := ih fun other inside => posts other (List.mem_append_left _ inside)
    rw [served_concat]
    exact ⟨serve_intact intact turn.1 turn.2,
      serve_tallied intact tallied turn.1 (posts turn (by simp))⟩

theorem served_grows {first : List (Ambient × Call)} (intact : Intact (served first))
    (rest : List (Ambient × Call)) :
    Intact (served (first ++ rest)) ∧ Grows (served first) (served (first ++ rest)) := by
  induction rest using List.reverseRecOn with
  | nil =>
    rw [List.append_nil]
    exact ⟨intact, .refl _⟩
  | append_singleton rest turn ih =>
    rw [← List.append_assoc, served_concat]
    exact ⟨serve_intact ih.1 turn.1 turn.2, ih.2.trans (serve_grows ih.1 turn.1 turn.2)⟩

theorem exact_of_keyed {call : Call} {posting : Posting} {amount delta : Credit}
    (keyed : Call.keyed call = some (posting, amount, delta)) (posts : Call.PostsScaled call) :
    Exact delta := by
  cases call with
  | grant req | refund req =>
    cases keyed
    exact posts
  | charge req =>
    cases keyed
    exact posts.neg
  | _ => cases keyed

/-- **After calls of exact amounts a used key is answered with its entry, to the last decimal.** -/
theorem replays_of_postsScaled {turns : List (Ambient × Call)}
    (posts : ∀ turn ∈ turns, Call.PostsScaled turn.2) : Replays turns := by
  rintro first turn _ ⟨middle, rfl⟩ ⟨rest, rfl⟩ hasKey entry replied amb
  have inside : ∀ other ∈ first ++ [turn], Call.PostsScaled other.2 :=
    fun other member => posts other (List.mem_append_left _ (List.mem_append_left _ member))
  cases isKeyed : Call.keyed turn.2 with
  | none =>
    rw [Call.key, isKeyed] at hasKey
    exact absurd rfl hasKey
  | some keyed =>
    obtain ⟨posting, amount, delta⟩ := keyed
    rw [Call.key, isKeyed] at hasKey
    obtain ⟨key, own⟩ := Option.ne_none_iff_exists'.mp hasKey
    have answered := answered_of_serve isKeyed
      (exact_of_keyed isKeyed (inside turn (by simp))) own replied
    rw [← served_concat] at answered
    exact (answered.mono (served_grows (served_tallied inside).1 middle).2).serve isKeyed own amb

/-- **The books balance and replays are exact while posted amounts have five decimals.** In every
sequence of calls served by the database in which the amounts of grants, refunds, charges, settles
and leases have at most five decimals, at every moment: each balance is the sum of the stored deltas,
each `balance_after` the running sum, and a keyed request gets the entry it first got. -/
theorem books_of_postsScaled {turns : List (Ambient × Call)}
    (posts : ∀ turn ∈ turns, Call.PostsScaled turn.2) :
    (∀ first, first <+: turns → Tallied (served first)) ∧ Replays turns := by
  refine ⟨fun first inside => ?_, replays_of_postsScaled posts⟩
  exact (served_tallied fun turn member => posts turn (inside.subset member)).2

/-- A grant, a keyed charge and a lease, of exact amounts. -/
def exactTurns : List (Ambient × Call) :=
  [(numbered 0, .openAccount ⟨1, .user, true, none⟩), (numbered 1, .grant ⟨1, 1, .paid, none⟩),
    (numbered 2, .charge ⟨1, 1 / 100000, none, some "k"⟩), (numbered 3, .openLease ⟨1, 1 / 2⟩)]

theorem books_of_postsScaled_exactTurns : Tallied (served exactTurns) ∧ Replays exactTurns := by
  have posts : ∀ turn ∈ exactTurns, Call.PostsScaled turn.2 := by decide +kernel
  obtain ⟨tallied, replays⟩ := books_of_postsScaled posts
  exact ⟨tallied exactTurns List.prefix_rfl, replays⟩

/-- A charge of half a hundred-thousandth: the delta rounds away from zero, and so does what is
left. -/
def halfCharge : List (Ambient × Call) :=
  [(numbered 0, .openAccount ⟨1, .user, true, none⟩), (numbered 1, .grant ⟨1, 1, .paid, none⟩),
    (numbered 2, .charge ⟨1, 1 / 200000, none, none⟩)]

/-- The balance stays 1, and the stored deltas sum to 0.99999. -/
theorem halfCharge_not_tallied : ¬ Tallied (served halfCharge) := by
  intro tallied
  have drift : ((served halfCharge).accounts.get? 1).map (fun row =>
      (row.settled, deltas (served halfCharge).entries 1)) = some (1, 99999 / 100000) := by
    decide +kernel
  obtain ⟨row, found, sums⟩ := Option.map_eq_some_iff.mp drift
  rw [Prod.mk.injEq] at sums
  have same := tallied.settled found
  rw [sums.1, sums.2] at same
  norm_num at same

end Meter.Postgres
