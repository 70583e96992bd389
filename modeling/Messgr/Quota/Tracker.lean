import Messgr.Dispatcher.Worker
import Messgr.Quota.Windows

/-!
# The quota tracker

`QuotaTracker` of `src/producer_quota/tracker.rs`: the limits of every key as the tables had them at
the last refresh, and for every key a counter by the minute and one by the day. A counter remembers
one window, the one of the last call, and begins at zero whenever a call is in another one.
`check_and_record` holds its locks over no statement, so a call is one step. `checkAndRecord_cases`
says once what a call does.
-/

namespace Messgr.Quota

/-- What a quota is for. The class is the text of a column: the tables have whatever text was
written. -/
structure Key where
  producerId : Uuid
  channel : String
  msgClass : String
deriving DecidableEq

/-- Source: `EffectiveQuota`. -/
structure EffectiveQuota where
  perMinute : Option Int
  perDay : Option Int
  enforcement : String
deriving DecidableEq

/-- Source: `src/producer_quota/model.rs`, `enforcement::HARD`. -/
def hard : String := "hard"

/-- Source: `src/ingest/model.rs`, `class::AUTH`. -/
def auth : String := "auth"

/-- Source: `ingest/model.rs`, `class::TRANSACTIONAL`. -/
def transactional : String := "transactional"

/-- A counter of one granularity. -/
structure Counter where
  windowStart : Option Time := none
  sent : Nat := 0
  blocked : Nat := 0
deriving DecidableEq

/-- Source: `Counters`. -/
structure Counters where
  minute : Counter := {}
  day : Counter := {}
deriving DecidableEq

/-- Source: `QuotaTracker`. A key without an entry has the counters that `or_default` gives it. -/
structure Tracker where
  zone : Zone
  config : Key → Option EffectiveQuota
  counters : Key → Counters

/-- A tracker at the start of the process. -/
def Tracker.new (zone : Zone) : Tracker := ⟨zone, fun _ => none, fun _ => {}⟩

/-- Source: `roll_window`. -/
def Counter.roll (c : Counter) (fresh : Time) : Counter :=
  if c.windowStart ≠ some fresh then ⟨some fresh, 0, 0⟩ else c

/-- One more that is sent. -/
def Counter.send (c : Counter) : Counter := { c with sent := c.sent + 1 }

/-- One more that is blocked. -/
def Counter.block (c : Counter) : Counter := { c with blocked := c.blocked + 1 }

/-- The limit is set and reached. -/
def Counter.breaches (c : Counter) (limit : Option Int) : Bool :=
  limit.any fun l => l ≤ (c.sent : Int)

section
variable (t : Tracker) (key : Key) (now : Time)

/-- The counters of a key, rolled to the windows of a call. -/
def Tracker.rolled : Counters :=
  ⟨(t.counters key).minute.roll (minuteWindowStart now),
    (t.counters key).day.roll (dayWindowStart t.zone now)⟩

/-- The counters of a key change. -/
def Tracker.withCounters (c : Counters) : Tracker :=
  { t with counters := Function.update t.counters key c }

/-- Source: `record_admit`, and the ends of `check_and_record` that count a send. -/
def Tracker.recordAdmit : Tracker :=
  t.withCounters key ⟨(t.rolled key now).minute.send, (t.rolled key now).day.send⟩

/-- Source: `check_and_record`. -/
def checkAndRecord : QuotaDecision × Tracker :=
  if key.msgClass = auth then (.admitted, t.recordAdmit key now)
  else
    match t.config key with
    | none => (.admitted, t.recordAdmit key now)
    | some effective =>
      let c := t.rolled key now
      let dayBreach := c.day.breaches effective.perDay
      let minuteBreach := c.minute.breaches effective.perMinute
      if dayBreach || minuteBreach then
        if effective.enforcement = hard then
          if dayBreach then
            (.defer (nextDayWindowStart t.zone now),
              t.withCounters key { c with day := c.day.block })
          else
            (.defer (minuteWindowStart now + minute),
              t.withCounters key { c with minute := c.minute.block })
        else (.softBreach, t.recordAdmit key now)
      else (.admitted, t.recordAdmit key now)

end

/-! ## What a call does -/

section
variable {t t' : Tracker} {key key' : Key} {now : Time} {d : QuotaDecision}

@[simp] theorem counters_withCounters_self (c : Counters) :
    (t.withCounters key c).counters key = c := Function.update_self _ _ _

theorem counters_withCounters_of_ne (h : key' ≠ key) (c : Counters) :
    (t.withCounters key c).counters key' = t.counters key' := Function.update_of_ne h _ _

theorem roll_windowStart (c : Counter) (fresh : Time) :
    (c.roll fresh).windowStart = some fresh := by
  unfold Counter.roll
  split
  · rfl
  · next h => exact of_not_not h

/-- What a call decides and counts. -/
inductive CheckStep (t : Tracker) (key : Key) (now : Time) : QuotaDecision → Tracker → Prop
  | exempt (free : key.msgClass = auth ∨ t.config key = none) :
      CheckStep t key now .admitted (t.recordAdmit key now)
  | within {q : EffectiveQuota} (config : t.config key = some q)
      (day : (t.rolled key now).day.breaches q.perDay = false)
      (minute : (t.rolled key now).minute.breaches q.perMinute = false) :
      CheckStep t key now .admitted (t.recordAdmit key now)
  | soft {q : EffectiveQuota} (config : t.config key = some q) (soft : q.enforcement ≠ hard) :
      CheckStep t key now .softBreach (t.recordAdmit key now)
  | deferred {q : EffectiveQuota} {nextAttemptAt : Time} {c : Counters}
      (notAuth : key.msgClass ≠ auth) (config : t.config key = some q)
      (hard : q.enforcement = hard)
      (until_ : nextAttemptAt = nextDayWindowStart t.zone now ∨
        nextAttemptAt = minuteWindowStart now + Messgr.minute)
      (counters : c = ⟨(t.rolled key now).minute, (t.rolled key now).day.block⟩ ∨
        c = ⟨(t.rolled key now).minute.block, (t.rolled key now).day⟩) :
      CheckStep t key now (.defer nextAttemptAt) (t.withCounters key c)

/-- Every call is one of these. -/
theorem checkAndRecord_cases :
    CheckStep t key now (checkAndRecord t key now).1 (checkAndRecord t key now).2 := by
  unfold checkAndRecord
  split
  · next hauth => exact .exempt (.inl hauth)
  · next hauth =>
    split
    · next hnone => exact .exempt (.inr hnone)
    · next q hq =>
      dsimp only
      cases hday : (t.rolled key now).day.breaches q.perDay with
      | true =>
        rw [Bool.true_or, if_pos rfl]
        split
        · next hhard => exact .deferred hauth hq hhard (.inl rfl) (.inl rfl)
        · next hsoft => exact .soft hq hsoft
      | false =>
        cases hminute : (t.rolled key now).minute.breaches q.perMinute with
        | true =>
          rw [Bool.or_true, if_pos rfl]
          split
          · next hhard => exact .deferred hauth hq hhard (.inr rfl) (.inr rfl)
          · next hsoft => exact .soft hq hsoft
        | false => exact .within hq hday hminute

/-- A call changes neither the limits nor the zone, and no other key's counters. -/
theorem CheckStep.config (h : CheckStep t key now d t') : t'.config = t.config := by
  cases h <;> rfl

theorem CheckStep.zone (h : CheckStep t key now d t') : t'.zone = t.zone := by
  cases h <;> rfl

theorem CheckStep.counters_of_ne (h : CheckStep t key now d t') (hne : key' ≠ key) :
    t'.counters key' = t.counters key' := by
  cases h <;> exact counters_withCounters_of_ne hne _

/-- Only a hard quota defers. -/
theorem CheckStep.hard_of_defer {nextAttemptAt : Time}
    (h : CheckStep t key now (.defer nextAttemptAt) t') :
    key.msgClass ≠ auth ∧ ∃ q, t.config key = some q ∧ q.enforcement = hard := by
  cases h with
  | deferred hauth hq hhard => exact ⟨hauth, _, hq, hhard⟩

end

end Messgr.Quota
