/-
**What an allowed reservation is good for.**

`reserve` answers `Allowed` in two ways. It places a new hold, having looked at the account and its
funds; or it finds an open hold under the reservation id, and looks at nothing else: not at the
account of that hold, nor at its amount.

* `allowed_cases` — the two ways.
* `allowed_iff` — **an allowed request is covered exactly if the open hold it meets, if it meets
  one, is on its own account and at least of its amount**.
-/

import Meter.Ledger.Totality

namespace Meter.Ledger

open Meter.Lib

/-- The hold that a request asks for. -/
def ReserveRequest.hold (req : ReserveRequest) : Hold where
  account := req.account
  amount := req.amount
  status := .open
  settleEntry := none
  expiresAt := req.expiresAt
  runId := req.runId

/-- The request can be answered at all: a positive amount on an existing account. -/
def ReserveRequest.Proper (s : State) (req : ReserveRequest) : Prop :=
  0 < req.amount ∧ s.accounts.contains req.account = true

/-- The account must have the credit: a hard limit, or an account that may not be overdrawn. -/
def ReserveRequest.Guarded (s : State) (req : ReserveRequest) : Prop :=
  req.limit = .hard ∨ ∃ row, s.accounts.get? req.account = some row ∧ row.account.noOverdraft = true

/-- **The two ways to be allowed**: an open hold is met, or a new one is placed. -/
theorem allowed_cases {req : ReserveRequest} {reservation : ReservationId} {s s' : State}
    (result : reserve req s = some (.ok (.allowed reservation), s')) :
    req.Proper s ∧
      ((∃ hold, s.holds.get? req.reservationId = some hold ∧ hold.status = .open ∧ s' = s) ∨
        s.holds.get? req.reservationId = none ∧
          (req.Guarded s → req.amount ≤ s.available req.account) ∧
          s' = { s with holds := s.holds.set req.reservationId req.hold }) := by
  unfold reserve at result
  split at result
  · cases result
  rename_i positive
  split at result
  · cases result
  rename_i row found
  refine ⟨⟨not_not.mp positive, Table.contains_iff.mpr ⟨row, found⟩⟩, ?_⟩
  split at result
  · rename_i hold isHold
    split at result
    · rename_i status
      cases result
      exact .inl ⟨hold, isHold, status, rfl⟩
    · cases result
  rename_i absent
  dsimp only at result
  split at result
  · cases result
  rename_i allowed
  cases result
  refine .inr ⟨absent, fun guarded => ?_, rfl⟩
  by_contra short
  rw [State.available, State.settled_of_get found] at short
  refine allowed ⟨?_, not_le.mp short⟩
  rcases guarded with hard | ⟨row', found', noOverdraft⟩
  · exact .inl hard
  · rw [← Option.some.inj (found.symm.trans found')] at noOverdraft
    exact .inr noOverdraft

/-- The answer is covered: there is an open hold of the request, on its account and of its amount
at least; and if the hold is new and must be funded, it was. -/
structure ReserveRequest.Covered (req : ReserveRequest) (s s' : State) : Prop where
  hold : ∃ hold, s'.holds.get? req.reservationId = some hold ∧ hold.status = .open ∧
    hold.account = req.account ∧ req.amount ≤ hold.amount
  funded : s.holds.get? req.reservationId = none → req.Guarded s →
    req.amount ≤ s.available req.account

/-- An open hold under the id of the request is the request's own. -/
def ReserveRequest.Own (s : State) (req : ReserveRequest) : Prop :=
  ∀ hold, s.holds.get? req.reservationId = some hold → hold.status = .open →
    hold.account = req.account ∧ req.amount ≤ hold.amount

/-- **When allowed means covered.** Every `Allowed` answer to a proper request is covered, exactly if
an open hold that its reservation id already names is on its account and at least of its amount. -/
theorem allowed_iff (s : State) (req : ReserveRequest) :
    (∀ reservation s', reserve req s = some (.ok (.allowed reservation), s') → req.Covered s s') ↔
      (req.Proper s → req.Own s) := by
  refine ⟨fun covered proper hold isHold isOpen => ?_, fun own reservation s' result => ?_⟩
  · obtain ⟨row, found⟩ := Table.contains_iff.mp proper.2
    have result : reserve req s = some (.ok (.allowed req.reservationId), s) := by
      rw [reserve, if_neg (not_not.mpr proper.1), found, isHold]
      exact if_pos isOpen
    obtain ⟨other, isOther, _, account, amount⟩ := (covered _ _ result).hold
    rw [Option.some.inj (isHold.symm.trans isOther)]
    exact ⟨account, amount⟩
  · obtain ⟨proper, ⟨hold, isHold, isOpen, rfl⟩ | ⟨absent, funded, rfl⟩⟩ := allowed_cases result
    · refine ⟨⟨hold, isHold, isOpen, own proper hold isHold isOpen⟩, fun absent => ?_⟩
      cases absent.symm.trans isHold
    · refine ⟨⟨req.hold, ?_, rfl, rfl, le_rfl⟩, fun _ => funded⟩
      exact (Table.get?_set _ _ _ _).trans (if_pos rfl)

/-- A small hold of one account, and another account without credit. -/
def sharedCalls : List (Ambient × Call) :=
  [.openAccount ⟨1, .user, true, none⟩, .grant ⟨1, 100, .paid, none⟩,
    .openAccount ⟨2, .user, true, none⟩, .reserve ⟨1, 11, 1, .hard, none, none⟩].zipIdx.map
      fun call => (numbered call.2, call.1)

/-- The state that the script ends in. -/
def shared : State := (perform State.new sharedCalls).elim State.new Prod.snd

theorem history_shared : ∃ events, History State.new events shared := by
  have result : (perform State.new sharedCalls).isSome := by decide +kernel
  obtain ⟨⟨events, last⟩, found⟩ := Option.isSome_iff_exists.mp result
  refine ⟨events, ?_⟩
  rw [shared, found]
  exact history_of_perform found

/-- The empty account asks for 1000 credits under the same reservation id, and is allowed. -/
theorem allowed_uncovered : (∃ events, History State.new events shared) ∧
    ∃ req : ReserveRequest, reserve req shared = some (.ok (.allowed 11), shared) ∧
      req.limit = .hard ∧ shared.available req.account = 0 ∧ ¬ req.Covered shared shared := by
  refine ⟨history_shared, ⟨3, 11, 1000, .hard, none, none⟩, by decide +kernel, rfl,
    by decide +kernel, fun covered => ?_⟩
  obtain ⟨hold, isHold, _, account, _⟩ := covered.hold
  have stored : (shared.holds.get? 11).map Hold.account = some 1 := by decide +kernel
  rw [isHold, Option.map_some, account] at stored
  exact absurd (Option.some.inj stored) (by decide)

end Meter.Ledger
