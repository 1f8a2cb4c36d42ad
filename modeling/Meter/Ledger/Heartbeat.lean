/-
**Heartbeats and the sweep.**

`extend_hold` sets the expiry of an open hold, to a later instant or to an earlier one. So what
protects a hold from `void_expired_holds` is the last heartbeat that was acknowledged, not the
latest expiry.

* `hold_kept` — an action other than a heartbeat leaves the expiry of a hold alone.
* `Watched.run` — along any calls, a hold that is open expires at its last acknowledged heartbeat.
* `sweep_keeps_iff` — **after a heartbeat, a sweep before its expiry leaves the hold alone exactly if
  the last heartbeat acknowledged in between, if there was one, does not expire by then**; so it
  does if no later heartbeat moves the expiry back.
-/

import Meter.Ledger.Totality

namespace Meter.Ledger

open Meter.Lib

/-! ### The expiry of a hold -/

/-- **An action other than a heartbeat leaves the expiry of a hold alone.** -/
theorem hold_kept {s : State} {action : Action} (fits : action.Fits s)
    {reservation : ReservationId} (other : ∀ expiresAt, action ≠ .extend reservation expiresAt)
    {hold : Hold} (found : s.holds.get? reservation = some hold) :
    ∃ new, (action.apply s).holds.get? reservation = some new ∧ new.expiresAt = hold.expiresAt := by
  cases action with
  | openAccount _ | credit _ | charge _ | reverse _ | transfer _ _ => exact ⟨hold, found, rfl⟩
  | settle settled entry =>
    by_cases same : reservation = settled
    · simp only [Action.apply, Table.get?_modify, ← same, found]
      exact ⟨_, rfl, rfl⟩
    · simp only [Action.apply, Table.get?_modify, if_neg same]
      exact ⟨hold, found, rfl⟩
  | place placed new =>
    have different : reservation ≠ placed := by
      rintro rfl
      cases fits.1.symm.trans found
    simp only [Action.apply, Table.get?_set, if_neg different]
    exact ⟨hold, found, rfl⟩
  | release reservations =>
    simp only [Action.apply, Table.get?_mapValues, found, Option.map_some]
    split
    · exact ⟨_, rfl, rfl⟩
    · exact ⟨_, rfl, rfl⟩
  | extend extended expiresAt =>
    have different : reservation ≠ extended := by
      rintro rfl
      exact other expiresAt rfl
    simp only [Action.apply, Table.get?_modify, if_neg different]
    exact ⟨hold, found, rfl⟩

/-- The hold exists and, while it is open, expires at an instant. -/
def Watched (s : State) (reservation : ReservationId) (expiresAt : OffsetDateTime) : Prop :=
  ∃ hold, s.holds.get? reservation = some hold ∧
    (hold.status = .open → hold.expiresAt = some expiresAt)

theorem Watched.path {s s' : State} {actions : List Action} (path : Path s actions s')
    {reservation : ReservationId} {expiresAt : OffsetDateTime}
    (other : ∀ action ∈ actions, ∀ instant, action ≠ .extend reservation instant)
    (watched : Watched s reservation expiresAt) : Watched s' reservation expiresAt := by
  induction path with
  | nil s => exact watched
  | cons action enabled _ ih =>
    refine ih (fun later member => other later (List.mem_cons_of_mem _ member)) ?_
    obtain ⟨hold, found, expires⟩ := watched
    obtain ⟨new, foundNew, same⟩ := hold_kept enabled.fits (other action List.mem_cons_self) found
    obtain ⟨new', foundNew', evolves, _⟩ := hold_apply enabled.fits found
    cases foundNew.symm.trans foundNew'
    refine ⟨new, foundNew, fun isOpen => same.trans (expires ?_)⟩
    by_contra closed
    exact closed ((evolves.closed closed).1.symm.trans isOpen)

/-! ### Heartbeats of a history -/

/-- The expiry of the heartbeat that a call acknowledges. -/
def Event.beat (reservation : ReservationId) (event : Event) : Option OffsetDateTime :=
  match event.call, event.reply with
  | .extendHold other expiresAt, .ok _ => if other = reservation then some expiresAt else none
  | _, _ => none

/-- The expiry of the last heartbeat acknowledged, from a first one on. -/
def lastBeat (reservation : ReservationId) : OffsetDateTime → List Event → OffsetDateTime
  | last, [] => last
  | last, event :: events => lastBeat reservation ((event.beat reservation).getD last) events

/-- Heartbeats that move the expiry forward only. -/
theorem le_lastBeat {reservation : ReservationId} {first last : OffsetDateTime}
    {events : List Event} (ordered : first ≤ last)
    (forward : ∀ event ∈ events, ∀ expiresAt, event.beat reservation = some expiresAt →
      first ≤ expiresAt) : first ≤ lastBeat reservation last events := by
  induction events generalizing last with
  | nil => exact ordered
  | cons event events ih =>
    refine ih ?_ fun later member => forward later (List.mem_cons_of_mem _ member)
    cases beats : event.beat reservation with
    | none => exact ordered
    | some expiresAt => exact forward event List.mem_cons_self expiresAt beats

/-- What an acknowledged heartbeat does. -/
theorem watched_of_beat {event : Event} {amb : Ambient} (occurs : event.Occurs amb)
    {reservation : ReservationId} {expiresAt : OffsetDateTime}
    (beats : event.beat reservation = some expiresAt) :
    Watched event.after reservation expiresAt := by
  obtain ⟨before, call, reply, after⟩ := event
  have result := occurs.result
  unfold Event.beat at beats
  dsimp only at beats result
  split at beats
  · split at beats
    · rename_i same
      cases beats
      subst same
      obtain ⟨_, returned, _⟩ := Outcome.of_reply result
      unfold extendHold at returned
      split at returned
      · cases returned
      rename_i hold found
      split at returned
      · cases returned
        refine ⟨{ hold with expiresAt := some expiresAt }, ?_, fun _ => rfl⟩
        rw [Table.get?_modify, if_pos rfl, found]
        rfl
      · cases returned
      · cases returned
    · cases beats
  · cases beats

/-- A call that acknowledges no heartbeat of the hold. -/
theorem Watched.event {event : Event} {amb : Ambient} (wf : event.before.WellFormed)
    (occurs : event.Occurs amb) {reservation : ReservationId} {expiresAt : OffsetDateTime}
    (silent : event.beat reservation = none)
    (watched : Watched event.before reservation expiresAt) :
    Watched event.after reservation expiresAt := by
  obtain ⟨before, call, reply, after⟩ := event
  by_cases heartbeat : ∃ instant, call = .extendHold reservation instant
  · obtain ⟨instant, rfl⟩ := heartbeat
    cases reply with
    | ok answer =>
      unfold Event.beat at silent
      dsimp only at silent
      rw [if_pos rfl] at silent
      cases silent
    | error error =>
      have same : after = before := step_atomic _ _ _ occurs.result
      rw [same]
      exact watched
  · obtain ⟨actions, path, permitted⟩ := occurs.path wf
    refine watched.path path fun action member instant extends_ => heartbeat ?_
    have permits := permitted action member
    rw [extends_] at permits
    cases call with
    | extendHold other expiresAt' => exact ⟨expiresAt', by rw [← permits.1]⟩
    | _ => exact permits.elim

/-- **An open hold expires at its last acknowledged heartbeat.** -/
theorem Watched.run {s s' : State} {events : List Event} (history : History s events s')
    (wf : s.WellFormed) {reservation : ReservationId} {expiresAt : OffsetDateTime}
    (watched : Watched s reservation expiresAt) :
    Watched s' reservation (lastBeat reservation expiresAt events) := by
  induction history generalizing expiresAt with
  | nil s => exact watched
  | cons amb event occurs _ ih =>
    obtain ⟨actions, path, _⟩ := occurs.path wf
    refine ih (wf.path path) ?_
    cases beats : event.beat reservation with
    | none => exact watched.event wf occurs beats
    | some instant => exact watched_of_beat occurs beats

/-! ### The sweep -/

/-- What a sweep does to one hold. -/
theorem get?_voidExpired {s : State} {reservation : ReservationId} {hold : Hold}
    (found : s.holds.get? reservation = some hold) (now : OffsetDateTime) :
    (s.holds.mapValues fun _ hold =>
      if hold.expired now then { hold with status := .voided } else hold).get? reservation =
        s.holds.get? reservation ↔ hold.expired now = false := by
  rw [Table.get?_mapValues, found, Option.map_some, Option.some.injEq]
  cases expired : hold.expired now with
  | false => exact iff_of_true (if_neg Bool.false_ne_true) rfl
  | true =>
    refine iff_of_false (fun same => ?_) (by decide)
    have isOpen : hold.status = .open := (of_decide_eq_true expired).1
    rw [if_pos rfl] at same
    rw [← same] at isOpen
    cases isOpen

/-- A history is cut anywhere. -/
theorem History.cut {s s' : State} {first second : List Event}
    (history : History s (first ++ second) s') :
    ∃ middle, History s first middle ∧ History middle second s' := by
  induction first generalizing s with
  | nil => exact ⟨s, .nil s, history⟩
  | cons event first ih =>
    cases history with
    | cons amb _ occurs rest =>
      obtain ⟨middle, earlier, later⟩ := ih rest
      exact ⟨middle, .cons amb event occurs earlier, later⟩

/-- **What protects a hold.** In any history, let a heartbeat of a hold be acknowledged, and let a
sweep come later, at an instant before the expiry of the heartbeat. The sweep leaves the hold as it
is exactly if the hold is closed by then or the last heartbeat acknowledged before the sweep expires
after its instant. So it does whenever no heartbeat in between names an earlier expiry. -/
theorem sweep_keeps_iff {before middle after : List Event} {beat sweep : Event} {s : State}
    (history : History State.new (before ++ beat :: (middle ++ sweep :: after)) s)
    {reservation : ReservationId} {expiresAt now : OffsetDateTime}
    (acknowledged : beat.beat reservation = some expiresAt)
    (isSweep : sweep.call = .voidExpiredHolds now) (early : now < expiresAt) :
    (sweep.after.holds.get? reservation = sweep.before.holds.get? reservation ↔
      ((sweep.before.holds.get? reservation).map Hold.status = some .open →
        now < lastBeat reservation expiresAt middle)) ∧
    ((∀ event ∈ middle, ∀ instant, event.beat reservation = some instant → expiresAt ≤ instant) →
      sweep.after.holds.get? reservation = sweep.before.holds.get? reservation) := by
  obtain ⟨start, earlier, rest⟩ := history.cut
  cases rest with
  | cons amb _ beats rest =>
    have wf := earlier.wellFormed .new
    obtain ⟨actions, path, _⟩ := beats.path wf
    have wf' := wf.path path
    obtain ⟨reached, between, rest⟩ := rest.cut
    obtain ⟨hold, found, expires⟩ := (watched_of_beat beats acknowledged).run between wf'
    cases rest with
    | cons amb' _ sweeps _ =>
      have result := sweeps.result
      rw [isSweep] at result
      have isAfter : sweep.after.holds = sweep.before.holds.mapValues fun _ hold =>
          if hold.expired now then { hold with status := .voided } else hold :=
        congrArg (fun outcome => outcome.elim sweep.after.holds fun pair => pair.2.holds)
          result.symm
      have kept : sweep.after.holds.get? reservation = sweep.before.holds.get? reservation ↔
          ((sweep.before.holds.get? reservation).map Hold.status = some .open →
            now < lastBeat reservation expiresAt middle) := by
        rw [isAfter, get?_voidExpired found, found, Option.map_some, Option.some.injEq,
          Hold.expired, decide_eq_false_iff_not, not_and]
        refine forall_congr' fun isOpen => ?_
        rw [expires isOpen]
        rw [Option.any_some, decide_eq_true_eq, not_le]
      refine ⟨kept, fun forward => kept.mpr fun _ => ?_⟩
      exact early.trans_le (le_lastBeat le_rfl forward)

/-- A hold and two heartbeats of it, and a sweep. -/
def beatCalls (first second now : OffsetDateTime) : List (Ambient × Call) :=
  [.openAccount ⟨1, .user, true, none⟩, .grant ⟨1, 100, .paid, none⟩,
    .reserve ⟨1, 11, 30, .hard, some 10, none⟩, .extendHold 11 first, .extendHold 11 second,
    .voidExpiredHolds now].zipIdx.map fun call => (numbered call.2, call.1)

/-- The events of the script, taken apart. -/
theorem events_of_beats {first second now : OffsetDateTime} {events : List Event} {s : State}
    (performed : perform State.new (beatCalls first second now) = some (events, s)) :
    ∃ before beat between sweep, events = before ++ beat :: ([between] ++ sweep :: []) ∧
      events[3]? = some beat ∧ events[4]? = some between ∧ events[5]? = some sweep ∧
      sweep.call = .voidExpiredHolds now := by
  have calls := calls_of_perform performed
  obtain ⟨opened, rest, rfl, _, calls⟩ := List.map_eq_cons_iff.mp calls
  obtain ⟨granted, rest, rfl, _, calls⟩ := List.map_eq_cons_iff.mp calls
  obtain ⟨reserved, rest, rfl, _, calls⟩ := List.map_eq_cons_iff.mp calls
  obtain ⟨beat, rest, rfl, _, calls⟩ := List.map_eq_cons_iff.mp calls
  obtain ⟨between, rest, rfl, _, calls⟩ := List.map_eq_cons_iff.mp calls
  obtain ⟨sweep, rest, rfl, isSweep, calls⟩ := List.map_eq_cons_iff.mp calls
  cases List.map_eq_nil_iff.mp calls
  exact ⟨[opened, granted, reserved], beat, between, sweep, rfl, rfl, rfl, rfl, isSweep⟩

/-- Heartbeats for 100 and then for 150 protect the hold from a sweep at 60. -/
theorem sweep_keeps_iff_ordered : ∃ events s,
    perform State.new (beatCalls 100 150 60) = some (events, s) ∧
      ∃ sweep ∈ events, sweep.call = .voidExpiredHolds 60 ∧
        sweep.after.holds.get? 11 = sweep.before.holds.get? 11 := by
  have computed : (perform State.new (beatCalls 100 150 60)).any (fun result =>
      decide ((result.1[3]?.bind fun event => event.beat 11) = some 100 ∧
        (result.1[4]?.bind fun event => event.beat 11) = some 150)) = true := by
    decide +kernel
  obtain ⟨⟨events, s⟩, performed, facts⟩ := (Option.any_eq_true _ _).mp computed
  obtain ⟨acknowledged, later⟩ := of_decide_eq_true facts
  obtain ⟨before, beat, between, sweep, rfl, isBeat, isBetween, _, isSweep⟩ :=
    events_of_beats performed
  rw [isBeat, Option.bind_some] at acknowledged
  rw [isBetween, Option.bind_some] at later
  refine ⟨_, s, performed, sweep, by simp, isSweep, ?_⟩
  refine (sweep_keeps_iff (history_of_perform performed) acknowledged isSweep (by decide)).2 ?_
  intro event member instant beats
  rw [List.mem_singleton.mp member, later] at beats
  cases beats
  decide

/-- Heartbeats for 100 and then for 50, delivered late, do not: the sweep at 60 voids the hold. -/
theorem late_heartbeat_unprotects : ∃ events s,
    perform State.new (beatCalls 100 50 60) = some (events, s) ∧ History State.new events s ∧
      ∃ before beat middle sweep, events = before ++ beat :: (middle ++ sweep :: []) ∧
        beat.beat 11 = some 100 ∧ sweep.call = .voidExpiredHolds 60 ∧ (60 : OffsetDateTime) < 100 ∧
        sweep.after.holds.get? 11 ≠ sweep.before.holds.get? 11 := by
  have computed : (perform State.new (beatCalls 100 50 60)).any (fun result =>
      decide ((result.1[3]?.bind fun event => event.beat 11) = some 100 ∧
        (result.1[5]?.map fun event => event.after.holds.get? 11) ≠
          (result.1[5]?.map fun event => event.before.holds.get? 11))) = true := by
    decide +kernel
  obtain ⟨⟨events, s⟩, performed, facts⟩ := (Option.any_eq_true _ _).mp computed
  obtain ⟨acknowledged, changed⟩ := of_decide_eq_true facts
  obtain ⟨before, beat, between, sweep, rfl, isBeat, _, swept, isSweep⟩ :=
    events_of_beats performed
  rw [isBeat, Option.bind_some] at acknowledged
  rw [swept] at changed
  refine ⟨_, s, performed, history_of_perform performed, before, beat, [between], sweep, rfl,
    acknowledged, isSweep, by decide, fun same => changed ?_⟩
  rw [Option.map_some, Option.map_some, same]

end Meter.Ledger
