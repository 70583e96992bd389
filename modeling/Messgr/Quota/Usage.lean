import Messgr.Dispatcher.Charges
import Messgr.Quota.Bound
import Messgr.Quota.Configure

/-!
# The history of usage

A timer writes the counters of the tracker to `producer_usage`, a row for every key and window, and
a call that is in another window begins the counter anew. `usage_complete`: every window in which
there was a call has its row, with what was admitted and blocked there, if a counter is left only
when it is written, and only for a window that has no row. Nothing sees to either: a minute that
ends before the timer fires is lost (`usage_lost`), and a day that is returned to is written over.
`Kept` is the invariant.
-/

namespace Messgr.Quota

open List Option Table Bool
open Charges (Granularity)

/-- Source: `src/producer_quota/model.rs`, `granularity::MINUTE`, `granularity::DAY`. -/
def granularityText : Granularity → String
  | .minute => "minute"
  | .day => "day"

theorem granularityText_injective : Function.Injective granularityText := by
  intro g g' h
  cases g <;> cases g' <;> first | rfl | exact absurd h (by decide)

/-! ## The table -/

/-- The primary key of `producer_usage`. Source: `0017_producer_quota.sql`. -/
abbrev UsageRow.id (r : UsageRow) : Key × String × Time :=
  (r.key, r.granularity, r.windowStart)

abbrev ProducerUsage := Table UsageRow UsageRow.id

/-- The row of a counter, if it has a window. -/
def Counter.usageRow (c : Counter) (key : Key) (g : Granularity) : Option UsageRow :=
  c.windowStart.map fun ws => ⟨key, granularityText g, ws, c.sent, c.blocked⟩

/-- The rows of the keys that the tracker has counters of. Source: `flush`. -/
def Tracker.usageRows (t : Tracker) (keys : List Key) : List UsageRow :=
  keys.flatMap fun key =>
    ((t.counters key).minute.usageRow key .minute).toList ++
      ((t.counters key).day.usageRow key .day).toList

/-- Source: `src/producer_quota/repo.rs`. -/
def ProducerUsage.flushUsage (usage : ProducerUsage) (rows : List UsageRow) : ProducerUsage :=
  rows.foldl Table.upsert usage

/-- Source: `flush`. -/
def Tracker.flush (t : Tracker) (keys : List Key) (usage : ProducerUsage) : ProducerUsage :=
  if (t.usageRows keys).isEmpty then usage else usage.flushUsage (t.usageRows keys)

/-- The rows of a minute and of a day. Source: `repo.rs`. -/
def ProducerUsage.loadCurrentUsage (usage : ProducerUsage)
    (minuteWindowStart dayWindowStart : Time) : List UsageRow :=
  usage.rows.filter fun r =>
    (r.granularity = "minute" && r.windowStart = minuteWindowStart) ||
      (r.granularity = "day" && r.windowStart = dayWindowStart)

/-! ## The system -/

/-- A call that was made, with the window it was charged to when it was blocked. -/
structure Charge extends Entry where
  blockedBy : Option Granularity
deriving DecidableEq

/-- The window that a call would be charged to if it were blocked: that of the day when the limit by
the day is reached. -/
def blockedBy (t : Tracker) (key : Key) (now : Time) : Granularity :=
  if (t.config key).any fun q => (t.rolled key now).day.breaches q.perDay then .day else .minute

/-- The counters with one more blocked call in a window. -/
def Counters.block (c : Counters) (g : Granularity) : Counters :=
  match g with
  | .minute => ⟨c.minute.block, c.day⟩
  | .day => ⟨c.minute, c.day.block⟩

/-- The charge of a call. -/
def chargeOf (t : Tracker) (key : Key) (now : Time) : Charge :=
  let e : Entry := ⟨key, now, (checkAndRecord t key now).1⟩
  ⟨e, if e.sends then none else some (blockedBy t key now)⟩

/-- The tracker, the keys it has counters of, `producer_usage` and the calls so far. -/
structure Metering where
  tracker : Tracker
  keys : List Key
  usage : ProducerUsage
  log : List Charge

inductive MeteringAct
  | check (key : Key) (now : Time)
  | flush
  | refreshConfig (config : Key → Option EffectiveQuota)

/-- A new tracker, and no usage. -/
def Metering.start (zone : Zone) (config : Key → Option EffectiveQuota) : Metering :=
  ⟨{ Tracker.new zone with config := config }, [], ∅, []⟩

def Metering.step (s : Metering) : MeteringAct → Option Metering
  | .check key now => some
      { s with
        tracker := (checkAndRecord s.tracker key now).2
        keys := if key ∈ s.keys then s.keys else s.keys ++ [key]
        log := s.log ++ [chargeOf s.tracker key now] }
  | .flush => some { s with usage := s.tracker.flush s.keys s.usage }
  | .refreshConfig config => some { s with tracker := { s.tracker with config := config } }

/-- The charge is one of the key in the window. -/
def Charge.isIn (c : Charge) (z : Zone) (key : Key) (g : Granularity) (ws : Time) : Bool :=
  c.key = key && g.windowStart z c.now = ws

/-- How many calls of a key in a window have the property. -/
def Metering.count (s : Metering) (key : Key) (g : Granularity) (ws : Time)
    (p : Charge → Bool) : Nat :=
  s.log.countP fun c => c.isIn s.tracker.zone key g ws && p c

/-- The condition: a call of a key is in the windows of its counters, or its counters are written
and it is in windows that have no row. -/
def rollsWritten (s : Metering) : MeteringAct → Bool
  | .check key now => [Granularity.minute, .day].all fun g =>
      let c := g.counter (s.tracker.counters key)
      let ws := g.windowStart s.tracker.zone now
      c.windowStart = some ws ||
        ((c.usageRow key g).all fun row =>
          (s.usage.find? row.id).any fun r => r.sent = c.sent && r.blocked = c.blocked) &&
        (s.usage.find? (key, granularityText g, ws)).isNone
  | _ => true

/-! ## What a call counts -/

section
variable {t : Tracker} {key key' : Key} {now ws : Time} {g : Granularity}

theorem counter_rolled : g.counter (t.rolled key now) =
    (g.counter (t.counters key)).roll (g.windowStart t.zone now) := by
  cases g <;> rfl

/-- A call is admitted, or blocked by one window and charged to it. -/
theorem checkAndRecord_charged : (∃ d, (Entry.mk key now d).sends = true ∧
      checkAndRecord t key now = (d, t.recordAdmit key now)) ∨
    ∃ nextAttemptAt, checkAndRecord t key now =
      (.defer nextAttemptAt,
        t.withCounters key ((t.rolled key now).block (blockedBy t key now))) := by
  unfold checkAndRecord
  split
  · exact .inl ⟨_, rfl, rfl⟩
  · split
    · exact .inl ⟨_, rfl, rfl⟩
    · next q hq =>
      dsimp only
      cases hday : (t.rolled key now).day.breaches q.perDay with
      | true =>
        rw [Bool.true_or, if_pos rfl]
        split
        · refine .inr ⟨nextDayWindowStart t.zone now, ?_⟩
          rw [if_pos rfl, blockedBy, hq, any_some, hday, if_pos rfl, Counters.block]
        · exact .inl ⟨_, rfl, rfl⟩
      | false =>
        split
        · split
          · refine .inr ⟨minuteWindowStart now + minute, ?_⟩
            rw [if_neg Bool.false_ne_true, blockedBy, hq, any_some, hday,
              if_neg Bool.false_ne_true, Counters.block]
          · exact .inl ⟨_, rfl, rfl⟩
        · exact .inl ⟨_, rfl, rfl⟩

/-- A call that does not send is blocked. -/
theorem blockedBy_chargeOf : (chargeOf t key now).blockedBy =
    if (chargeOf t key now).sends then none else some (blockedBy t key now) :=
  rfl

/-- A call counts its charge in its windows. -/
theorem counter_checkAndRecord :
    g.counter ((checkAndRecord t key now).2.counters key) =
      { g.counter (t.rolled key now) with
        sent := (g.counter (t.rolled key now)).sent + if (chargeOf t key now).sends then 1 else 0
        blocked := (g.counter (t.rolled key now)).blocked +
          if (chargeOf t key now).blockedBy = some g then 1 else 0 } := by
  rcases @checkAndRecord_charged t key now with ⟨d, hd, h⟩ | ⟨_, h⟩
  · have hs : (chargeOf t key now).sends = true := by simpa only [chargeOf, h] using hd
    rw [blockedBy_chargeOf, hs, h, Tracker.recordAdmit, counters_withCounters_self]
    cases g <;> rfl
  · have hs : (chargeOf t key now).sends = false := by simp only [chargeOf, h, Entry.sends]
    rw [blockedBy_chargeOf, hs, h, counters_withCounters_self]
    cases g <;> cases blockedBy t key now <;> rfl

/-- A call leaves the counters of its key in its windows. -/
theorem windowStart_checkAndRecord :
    (g.counter ((checkAndRecord t key now).2.counters key)).windowStart =
      some (g.windowStart t.zone now) := by
  rw [counter_checkAndRecord, counter_rolled]
  exact roll_windowStart _ _

end

/-! ## The table after a flush -/

section
variable {t : Tracker} {key : Key} {keys : List Key} {usage : ProducerUsage} {g : Granularity}
  {ws : Time} {r : UsageRow}

theorem id_of_usageRow {c : Counter} (h : c.usageRow key g = some r) :
    r.id = (key, granularityText g, r.windowStart) ∧ c.windowStart = some r.windowStart := by
  obtain ⟨ws, hws, rfl⟩ := map_eq_some_iff.1 h
  exact ⟨rfl, hws⟩

theorem mem_usageRows : r ∈ t.usageRows keys ↔
    ∃ key ∈ keys, ∃ g : Granularity, (g.counter (t.counters key)).usageRow key g = some r := by
  simp only [Tracker.usageRows, mem_flatMap, mem_append, mem_toList]
  constructor
  · rintro ⟨key, hmem, h | h⟩
    · exact ⟨key, hmem, .minute, h⟩
    · exact ⟨key, hmem, .day, h⟩
  · rintro ⟨key, hmem, g, h⟩
    cases g with
    | minute => exact ⟨key, hmem, .inl h⟩
    | day => exact ⟨key, hmem, .inr h⟩

/-- A window is written from its counter. -/
theorem mem_usageRows_of_id (hid : r.id = (key, granularityText g, ws)) :
    r ∈ t.usageRows keys ↔ key ∈ keys ∧ (g.counter (t.counters key)).usageRow key g = some r := by
  rw [mem_usageRows]
  constructor
  · rintro ⟨key', hmem, g', h⟩
    obtain ⟨hkey, hgran, _⟩ := by
      simpa only [Prod.mk.injEq] using (id_of_usageRow h).1.symm.trans hid
    obtain rfl := granularityText_injective hgran
    exact ⟨hkey ▸ hmem, hkey ▸ h⟩
  · exact fun ⟨hmem, h⟩ => ⟨key, hmem, g, h⟩

/-- One flush writes a window once. -/
theorem eq_of_mem_usageRows {a b : UsageRow} (ha : a ∈ t.usageRows keys)
    (hb : b ∈ t.usageRows keys) (hid : a.id = b.id) : a = b := by
  obtain ⟨key, _, g, hg⟩ := mem_usageRows.1 ha
  have hg' := ((mem_usageRows_of_id (hid.symm.trans (id_of_usageRow hg).1)).1 hb).2
  exact Option.some.inj (hg.symm.trans hg')

theorem mem_flush : r ∈ t.flush keys usage ↔
    r ∈ t.usageRows keys ∨ (r ∈ usage ∧ ∀ a ∈ t.usageRows keys, a.id ≠ r.id) := by
  unfold Tracker.flush
  split
  · next hnil => simp [isEmpty_iff.1 hnil]
  · exact mem_foldl_upsert_iff fun a ha b hb => eq_of_mem_usageRows ha hb

/-- The window of a counter is written. -/
theorem mem_flush_of_counter (usage : ProducerUsage) (hkey : key ∈ keys)
    (hws : (g.counter (t.counters key)).windowStart = some ws) :
    ⟨key, granularityText g, ws, (g.counter (t.counters key)).sent,
      (g.counter (t.counters key)).blocked⟩ ∈ t.flush keys usage := by
  refine mem_flush.2 (.inl (mem_usageRows.2 ⟨key, hkey, g, ?_⟩))
  rw [Counter.usageRow, hws, map_some]

/-- The row of another window stays. -/
theorem mem_flush_of_left (hid : r.id = (key, granularityText g, ws))
    (hne : (g.counter (t.counters key)).windowStart ≠ some ws) :
    r ∈ t.flush keys usage ↔ r ∈ usage := by
  have hnot : ∀ a ∈ t.usageRows keys, a.id ≠ r.id := by
    intro a ha haid
    have hws := (id_of_usageRow ((mem_usageRows_of_id (haid.trans hid)).1 ha).2).2
    obtain ⟨_, _, haws⟩ := by simpa only [Prod.mk.injEq] using haid.trans hid
    exact hne (haws ▸ hws)
  rw [mem_flush]
  constructor
  · rintro (hr | hr)
    · exact absurd rfl (hnot r hr)
    · exact hr.1
  · exact fun hr => .inr ⟨hr, hnot⟩

end

/-! ## The invariant -/

/-- The counter that a row is of. -/
def UsageRow.counter (r : UsageRow) : Counter := ⟨some r.windowStart, r.sent, r.blocked⟩

/-- The counter of a key. -/
abbrev Metering.counter (s : Metering) (key : Key) (g : Granularity) : Counter :=
  g.counter (s.tracker.counters key)

/-- The tracker knows the keys that it has counters of. -/
def Metering.Tracked (s : Metering) : Prop :=
  ∀ key (g : Granularity), (g.counter (s.tracker.counters key)).windowStart ≠ none → key ∈ s.keys

/-- What the number `f` of a counter says, for the calls that have the property `p`: the counter of
a key is right for its window, every row is right for a window that was left, and a window that was
left and in which there was a call has its row. -/
structure Metering.Kept (s : Metering) (key : Key) (g : Granularity) (f : Counter → Nat)
    (p : Charge → Bool) : Prop where
  current : ∀ ws, (g.counter (s.tracker.counters key)).windowStart = some ws →
    f (g.counter (s.tracker.counters key)) = s.count key g ws p
  left : ∀ ws r, (g.counter (s.tracker.counters key)).windowStart ≠ some ws → r ∈ s.usage →
    r.id = (key, granularityText g, ws) → f r.counter = s.count key g ws p
  written : ∀ ws c, (g.counter (s.tracker.counters key)).windowStart ≠ some ws → c ∈ s.log →
    c.isIn s.tracker.zone key g ws = true → ∃ r ∈ s.usage, r.id = (key, granularityText g, ws)

section
variable {s s' : Metering} {key key' : Key} {now ws : Time} {g : Granularity}
  {f : Counter → Nat} {p : Charge → Bool}
variable {c : Charge} {config : Key → Option EffectiveQuota}

theorem Metering.tracked_start {zone : Zone} : (Metering.start zone config).Tracked := by
  intro key g hne
  cases g <;> exact absurd rfl hne

theorem Metering.kept_start {zone : Zone} : (Metering.start zone config).Kept key g f p where
  current ws h := by cases g <;> cases h
  left ws r _ hr := absurd hr (not_mem_empty r)
  written ws c _ hc := by cases hc

theorem zone_check : (checkAndRecord s.tracker key now).2.zone = s.tracker.zone :=
  checkAndRecord_cases.zone

/-- One more call in the log. -/
theorem count_check (hs : s.step (.check key' now) = some s') :
    s'.count key g ws p = s.count key g ws p +
      if (chargeOf s.tracker key' now).isIn s.tracker.zone key g ws &&
        p (chargeOf s.tracker key' now) then 1 else 0 := by
  cases hs
  simp only [Metering.count, zone_check, countP_append, countP_singleton]

theorem isIn_chargeOf {z : Zone} {t : Tracker} :
    (chargeOf t key' now).isIn z key g ws = (decide (key' = key) && g.windowStart z now = ws) :=
  rfl

theorem isIn_iff {z : Zone} :
    c.isIn z key g ws = true ↔ c.key = key ∧ g.windowStart z c.now = ws := by
  rw [Charge.isIn, and_eq_true, decide_eq_true_eq, decide_eq_true_eq]

/-- A window without calls of the key counts none. -/
theorem count_eq_zero (h : ∀ c ∈ s.log, c.isIn s.tracker.zone key g ws = false) :
    s.count key g ws p = 0 := by
  rw [Metering.count, countP_eq_zero]
  intro c hc
  rw [h c hc, Bool.false_and]
  exact false_ne_true

/-- A call that is not in a window adds nothing to it. -/
theorem count_check_of_not_in (hs : s.step (.check key' now) = some s')
    (hnot : (chargeOf s.tracker key' now).isIn s.tracker.zone key g ws = false) :
    s'.count key g ws p = s.count key g ws p := by
  rw [count_check hs, hnot]
  simp

theorem mem_log_of_check (hs : s.step (.check key' now) = some s')
    (hnot : (chargeOf s.tracker key' now).isIn s.tracker.zone key g ws = false) (hc : c ∈ s'.log)
    (hin : c.isIn s'.tracker.zone key g ws = true) :
    c ∈ s.log ∧ c.isIn s.tracker.zone key g ws = true := by
  cases hs
  rw [zone_check] at hin
  rcases mem_append.1 hc with hc | hc
  · exact ⟨hc, hin⟩
  · rw [mem_singleton.1 hc, hnot] at hin
    cases hin

/-- A call of another key. -/
theorem Metering.Kept.check_of_ne (h : s.Kept key g f p) (hne : key ≠ key')
    (hs : s.step (.check key' now) = some s') : s'.Kept key g f p := by
  have hnot : ∀ ws, (chargeOf s.tracker key' now).isIn s.tracker.zone key g ws = false := by
    intro ws
    rw [isIn_chargeOf, decide_eq_false (Ne.symm hne), Bool.false_and]
  have hctr : s'.tracker.counters key = s.tracker.counters key := by
    cases hs
    exact checkAndRecord_cases.counters_of_ne hne
  have husage : s'.usage = s.usage := by cases hs; rfl
  refine ⟨?_, ?_, ?_⟩
  · intro ws hws
    rw [hctr] at hws ⊢
    rw [count_check_of_not_in hs (hnot ws), h.current ws hws]
  · intro ws r hws hr hid
    rw [hctr] at hws
    rw [count_check_of_not_in hs (hnot ws), h.left ws r hws (husage ▸ hr) hid]
  · intro ws c hws hc hin
    rw [hctr] at hws
    rw [husage]
    obtain ⟨hc, hin⟩ := mem_log_of_check hs (hnot ws) hc hin
    exact h.written ws c hws hc hin

/-- The counter that a call finds is right for its window, when it is the counter's or has no row
that counts something. -/
theorem Metering.Kept.rolled (h : s.Kept key g f p) (hnone : (s.counter key g).windowStart ≠
        some (g.windowStart s.tracker.zone now) →
      ∀ r ∈ s.usage, r.id = (key, granularityText g, g.windowStart s.tracker.zone now) →
        f r.counter = 0)
    (hzero : f ⟨some (g.windowStart s.tracker.zone now), 0, 0⟩ = 0) :
    f (g.counter (s.tracker.rolled key now)) =
      s.count key g (g.windowStart s.tracker.zone now) p := by
  rw [counter_rolled, Counter.roll]
  split
  · next hne =>
    rw [hzero]
    by_cases hin : ∃ c ∈ s.log,
        c.isIn s.tracker.zone key g (g.windowStart s.tracker.zone now) = true
    · obtain ⟨c, hc, hcin⟩ := hin
      obtain ⟨r, hr, hid⟩ := h.written _ c hne hc hcin
      rw [← h.left _ r hne hr hid, hnone hne r hr hid]
    · exact (count_eq_zero fun c hc => by simpa using fun hcin => hin ⟨c, hc, hcin⟩).symm
  · next heq => exact h.current _ (not_not.1 heq)

/-- A call of the key, in its counter's window, or when the counter is written and the call's window
has no row that counts something. -/
theorem Metering.Kept.check (h : s.Kept key g f p) (hs : s.step (.check key now) = some s')
    (hroll : (s.counter key g).windowStart =
        some (g.windowStart s.tracker.zone now) ∨
      (∀ ws, (s.counter key g).windowStart = some ws →
        ∃ r ∈ s.usage, r.id = (key, granularityText g, ws) ∧ f r.counter = f (s.counter key g)) ∧
      ∀ r ∈ s.usage, r.id = (key, granularityText g, g.windowStart s.tracker.zone now) →
        f r.counter = 0)
    (hzero : f ⟨some (g.windowStart s.tracker.zone now), 0, 0⟩ = 0) (hadd : f (s'.counter key g) =
      f (g.counter (s.tracker.rolled key now)) +
        if p (chargeOf s.tracker key now) then 1 else 0) : s'.Kept key g f p := by
  have hrolled := h.rolled (fun hne => (hroll.resolve_left hne).2) hzero
  have hws' : (s'.counter key g).windowStart =
      some (g.windowStart s.tracker.zone now) := by
    cases hs
    exact windowStart_checkAndRecord
  -- a window that was left just now is written
  have hjust : ∀ {ws}, (s'.counter key g).windowStart ≠ some ws →
      (s.counter key g).windowStart = some ws →
      ∃ r ∈ s.usage, r.id = (key, granularityText g, ws) ∧ f r.counter = f (s.counter key g) := by
    intro ws hne hws
    rw [hws'] at hne
    refine (hroll.resolve_left fun heq => ?_).1 ws hws
    exact hne (heq.symm.trans hws)
  have hnot : ∀ {ws}, (s'.counter key g).windowStart ≠ some ws →
      (chargeOf s.tracker key now).isIn s.tracker.zone key g ws = false := by
    intro ws hne
    rw [hws'] at hne
    rw [isIn_chargeOf, decide_eq_false fun h => hne (congrArg some h), Bool.and_false]
  have husage : s'.usage = s.usage := by cases hs; rfl
  refine ⟨?_, ?_, ?_⟩
  · intro ws hws
    obtain rfl := Option.some.inj (hws'.symm.trans hws)
    rw [hadd, hrolled, count_check hs, isIn_chargeOf]
    simp
  · intro ws r hne hr hid
    rw [count_check_of_not_in hs (hnot hne)]
    rw [husage] at hr
    by_cases hws : (s.counter key g).windowStart = some ws
    · obtain ⟨r', hr', hid', hf⟩ := hjust hne hws
      rw [eq_of_key hr hr' (hid.trans hid'.symm), hf, h.current ws hws]
    · exact h.left ws r hws hr hid
  · intro ws c hne hc hin
    rw [husage]
    by_cases hws : (s.counter key g).windowStart = some ws
    · obtain ⟨r, hr, hid, _⟩ := hjust hne hws
      exact ⟨r, hr, hid⟩
    · obtain ⟨hc, hin⟩ := mem_log_of_check hs (hnot hne) hc hin
      exact h.written ws c hws hc hin

theorem Metering.Kept.flush (h : s.Kept key g f p) (hs : s.step .flush = some s') :
    s'.Kept key g f p := by
  cases hs
  refine ⟨h.current, ?_, ?_⟩
  · intro ws r hne hr hid
    exact h.left ws r hne ((mem_flush_of_left hid hne).1 hr) hid
  · intro ws c hne hc hin
    obtain ⟨r, hr, hid⟩ := h.written ws c hne hc hin
    exact ⟨r, (mem_flush_of_left hid hne).2 hr, hid⟩

/-- Every step keeps the keys known. -/
theorem Metering.Tracked.step {a : MeteringAct} (h : s.Tracked) (hs : s.step a = some s') :
    s'.Tracked := by
  cases a with
  | check key now =>
    cases hs
    intro key' g hne
    show key' ∈ if key ∈ s.keys then s.keys else s.keys ++ [key]
    by_cases hkey : key' = key
    · subst hkey
      split
      · assumption
      · exact mem_append_right _ (mem_singleton.2 rfl)
    · rw [show ((checkAndRecord s.tracker key now).2.counters key') = s.tracker.counters key' from
        checkAndRecord_cases.counters_of_ne hkey] at hne
      have := h key' g hne
      split
      · exact this
      · exact mem_append_left _ this
  | flush | refreshConfig =>
    cases hs
    exact h

/-- What the condition says of one granularity. -/
theorem of_rollsWritten (hc : rollsWritten s (.check key now) = true) :
    (s.counter key g).windowStart =
        some (g.windowStart s.tracker.zone now) ∨
      (∀ ws, (s.counter key g).windowStart = some ws →
        ∃ r ∈ s.usage, r.id = (key, granularityText g, ws) ∧
          r.sent = (s.counter key g).sent ∧
          r.blocked = (s.counter key g).blocked) ∧
      ∀ r ∈ s.usage, r.id ≠ (key, granularityText g, g.windowStart s.tracker.zone now) := by
  have hg := all_eq_true.1 hc g (by cases g <;> decide)
  dsimp only at hg
  rw [or_eq_true, decide_eq_true_eq, and_eq_true] at hg
  refine hg.imp id fun ⟨hwritten, hfree⟩ => ⟨?_, ?_⟩
  · intro ws hws
    rw [Counter.usageRow, hws, map_some, all_some] at hwritten
    obtain ⟨r, hr, heq⟩ := (Option.any_eq_true _ _).1 hwritten
    rw [and_eq_true, decide_eq_true_eq, decide_eq_true_eq] at heq
    exact ⟨r, (Table.find?_some hr).1, (Table.find?_some hr).2, heq⟩
  · exact fun r hr => find?_none (isNone_iff_eq_none.1 hfree) hr

/-- A number that a call changes by what is counted is kept under the condition. -/
theorem Metering.Kept.step {a : MeteringAct} (h : s.Kept key g f p)
    (hc : rollsWritten s a = true) (hs : s.step a = some s') (hzero : ∀ ws, f ⟨ws, 0, 0⟩ = 0)
    (hrow : ∀ (c : Counter) (r : UsageRow), r.sent = c.sent → r.blocked = c.blocked →
      f r.counter = f c)
    (hadd : ∀ now, f (g.counter ((checkAndRecord s.tracker key now).2.counters key)) =
      f (g.counter (s.tracker.rolled key now)) +
        if p (chargeOf s.tracker key now) then 1 else 0) : s'.Kept key g f p := by
  cases a with
  | check key' now =>
    by_cases hkey : key = key'
    · subst hkey
      have hadd := hadd now
      refine h.check hs ((of_rollsWritten hc).imp id ?_) (hzero _) (by cases hs; exact hadd)
      rintro ⟨hwritten, hfree⟩
      refine ⟨fun ws hws => ?_, fun r hr hid => absurd hid (hfree r hr)⟩
      obtain ⟨r, hr, hid, hsent, hblocked⟩ := hwritten ws hws
      exact ⟨r, hr, hid, hrow _ r hsent hblocked⟩
    · exact h.check_of_ne hkey hs
  | flush => exact h.flush hs
  | refreshConfig config =>
    cases hs
    exact ⟨h.current, h.left, h.written⟩

/-- A flush writes the counters' windows, so every window with a call has its row. -/
theorem Metering.Kept.exists_row (h : s.Kept key g f p) (ht : s.Tracked)
    (hs : s.step .flush = some s') (hc : c ∈ s'.log)
    (hin : c.isIn s'.tracker.zone key g ws = true) :
    ∃ r ∈ s'.usage, r.id = (key, granularityText g, ws) := by
  by_cases hws : (s.counter key g).windowStart = some ws
  · cases hs
    exact ⟨_, mem_flush_of_counter _ (ht key g (hws.trans_ne (some_ne_none ws))) hws, rfl⟩
  · have h' := h.flush hs
    cases hs
    exact h'.written ws c hws hc hin

/-- After a flush every row is right. -/
theorem Metering.Kept.row (h : s.Kept key g f p) (ht : s.Tracked) (hs : s.step .flush = some s')
    (hrow : ∀ (c : Counter) (r : UsageRow), r.sent = c.sent → r.blocked = c.blocked →
      f r.counter = f c)
    {r : UsageRow} (hr : r ∈ s'.usage) (hid : r.id = (key, granularityText g, ws)) :
    f r.counter = s'.count key g ws p := by
  have h' := h.flush hs
  cases hs
  by_cases hws : (s.counter key g).windowStart = some ws
  · have hmem := mem_flush_of_counter s.usage (ht key g (hws.trans_ne (some_ne_none ws))) hws
    rw [eq_of_key hr hmem hid, hrow _ _ rfl rfl]
    exact h'.current ws hws
  · exact h'.left ws r hws hr hid

end

/-! ## Whole runs -/

section
variable {zone : Zone} {config : Key → Option EffectiveQuota} {as : List MeteringAct}
  {s s' : Metering} {key : Key} {g : Granularity} {ws : Time}

theorem Metering.tracked_of_steps {C : Metering → MeteringAct → Prop}
    (h : Run.Steps Metering.step C (.start zone config) as s) : s.Tracked :=
  h.inv (fun _ _ _ _ hs ht => ht.step hs) tracked_start

theorem kept_sent
    (h : Run.Steps Metering.step (fun s a => rollsWritten s a = true) (.start zone config) as s) :
    s.Kept key g Counter.sent (·.sends) := by
  refine h.inv (I := fun s => s.Kept key g Counter.sent (·.sends)) (fun s a s' hc hs hk => ?_)
    Metering.kept_start
  refine hk.step hc hs (fun _ => rfl) (fun _ _ hsent _ => hsent) fun now => ?_
  rw [counter_checkAndRecord]

theorem kept_blocked
    (h : Run.Steps Metering.step (fun s a => rollsWritten s a = true) (.start zone config) as s) :
    s.Kept key g Counter.blocked (·.blockedBy = some g) := by
  refine h.inv (I := fun s => s.Kept key g Counter.blocked (·.blockedBy = some g))
    (fun s a s' hc hs hk => ?_) Metering.kept_start
  refine hk.step hc hs (fun _ => rfl) (fun _ _ _ hblocked => hblocked) fun now => ?_
  rw [counter_checkAndRecord]
  simp only [decide_eq_true_eq]

/-- Calls of the tracker and flushes of it in any order, and a flush at the end, when no counter
leaves a window that is not written for one that is: `producer_usage` has a row of every minute and
every day in which there was a call of a key, with how many calls were admitted and how many blocked
there. -/
theorem usage_complete
    (h : Run.Steps Metering.step (fun s a => rollsWritten s a = true) (.start zone config) as s)
    (hflush : s.step .flush = some s')
    (hin : ∃ c ∈ s'.log, c.isIn s'.tracker.zone key g ws = true) :
    ∃ r ∈ s'.usage, r.id = (key, granularityText g, ws) ∧
      r.sent = s'.count key g ws (·.sends) ∧
      r.blocked = s'.count key g ws (·.blockedBy = some g) := by
  have ht := Metering.tracked_of_steps h
  obtain ⟨c, hc, hcin⟩ := hin
  obtain ⟨r, hr, hid⟩ := (kept_sent h).exists_row ht hflush hc hcin
  refine ⟨r, hr, hid, ?_, ?_⟩
  · exact (kept_sent h).row ht hflush (fun _ _ hsent _ => hsent) hr hid
  · exact (kept_blocked h).row ht hflush (fun _ _ _ hblocked => hblocked) hr hid

end

/-! ### Runs on fixed inputs -/

/-- Two calls in a minute and one in the next, with a flush between the minutes. -/
def flushedBetween : List MeteringAct :=
  [.check .sample 1, .check .sample 2, .flush, .check .sample minute]

theorem usage_complete_flushedBetween :
    ∃ s s', Run.Steps Metering.step (fun s a => rollsWritten s a = true)
        (.start utc Tracker.sample.config) flushedBetween s ∧
      s.step .flush = some s' ∧
      s'.count .sample .minute 0 (·.blockedBy = some .minute) = 1 ∧
      ∃ r ∈ s'.usage, r.id = (Key.sample, granularityText .minute, 0) ∧
        r.sent = s'.count .sample .minute 0 (·.sends) ∧
        r.blocked = s'.count .sample .minute 0 (·.blockedBy = some .minute) := by
  obtain ⟨s, hs, hp⟩ := Run.Steps.exists_of_checked Metering.step rollsWritten
    (.start utc Tracker.sample.config) flushedBetween
    (fun s => (s.step .flush).any fun s' =>
      s'.log.any (·.isIn s'.tracker.zone .sample .minute 0) &&
        s'.count .sample .minute 0 (·.blockedBy = some .minute) = 1) (by decide +kernel)
  obtain ⟨s', hs', hp'⟩ := (Option.any_eq_true _ _).1 hp
  obtain ⟨hin, hcount⟩ := Bool.and_eq_true_iff.1 hp'
  exact ⟨s, s', hs, hs', of_decide_eq_true hcount, usage_complete hs hs' (List.any_eq_true.1 hin)⟩

/-- A call, and one in the next minute before a flush: the first minute has no row. -/
theorem usage_lost :
    ∃ s, Run.Steps Metering.step Run.Any (.start utc Tracker.sample.config)
        [.check .sample 1, .check .sample minute, .flush] s ∧
      (s.log.any (·.isIn utc .sample .minute 0)) = true ∧
      s.usage.find? (.sample, granularityText .minute, 0) = none := by
  obtain ⟨s, hs, hp⟩ := Run.Steps.exists_of_exec Metering.step
    (.start utc Tracker.sample.config) [.check .sample 1, .check .sample minute, .flush]
    (fun s => s.log.any (·.isIn utc .sample .minute 0) &&
      (s.usage.find? (.sample, granularityText .minute, 0)).isNone) (by decide +kernel)
  obtain ⟨hin, hnone⟩ := Bool.and_eq_true_iff.1 hp
  exact ⟨s, hs, hin, Option.isNone_iff_eq_none.1 hnone⟩

end Messgr.Quota
