import Messgr.Quota.Usage

/-!
# The figures of the quota dashboard

For every quota the dashboard shows what was sent in the current minute and day, and what the rows
of minutes of the last 24 hours say was sent and blocked. When the tracker is flushed after each
call, the blocked calls of a key are shown, if none is blocked by the limit by the day and none is
in a minute that was left after calls were blocked there (`dashboard_blocked`). A call that the
limit by the day blocks is charged to its day, and is not shown (`day_deferral_not_shown`).
-/

namespace Messgr.Quota

open List Option Table
open Charges (Granularity)

/-! ## The dashboard -/

/-- Source: `src/producer_quota/repo.rs`. -/
def ProducerUsage.loadUsageHistory (usage : ProducerUsage) (since : Time) : List UsageRow :=
  (usage.rows.filter fun r => r.granularity = "minute" && decide (since ≤ r.windowStart)).mergeSort
    fun a b => decide (a.windowStart ≤ b.windowStart)

/-- Source: `src/query_api/admin.rs`. -/
def formatLimit (value : Nat) : Option Int → String
  | some limit => s!"{value} / {limit}"
  | none => s!"{value} (no limit)"

/-- A row of the dashboard. `sparkline` is what the curve is drawn of. -/
structure QuotaRow where
  key : Key
  minuteDisplay : String
  dayDisplay : String
  blocked24h : Nat
  sparkline : List Nat

/-- What was sent, by the row of the key and granularity, if there is one. -/
def sentOf (current : List UsageRow) (key : Key) (granularity : String) : Nat :=
  (((current.filter (·.key = key)).find? (·.granularity = granularity)).map (·.sent)).getD 0

/-- Source: `ui_quota_dashboard`, the closure that is mapped over the quotas. -/
def quotaRow (current history : List UsageRow) (q : ProducerQuota) : QuotaRow :=
  let keyHistory := history.filter (·.key = q.key)
  { key := q.key
    minuteDisplay := formatLimit (sentOf current q.key "minute") q.perMinute
    dayDisplay := formatLimit (sentOf current q.key "day") q.perDay
    blocked24h := Indexed.total (·.blocked) keyHistory
    sparkline := keyHistory.map (·.sent) }

/-- The rows of the dashboard. The windows were read before `now`. Source: `ui_quota_dashboard`. -/
def quotaDashboard (quotas : List ProducerQuota) (usage : ProducerUsage)
    (minuteStart dayStart now : Time) : List QuotaRow :=
  quotas.map (quotaRow (usage.loadCurrentUsage minuteStart dayStart)
    (usage.loadUsageHistory (now - 24 * hour)))

/-! ## Calls that are flushed -/

/-- A call, and a flush after it. -/
def Metering.round (s : Metering) (call : Key × Time) : Option Metering :=
  (s.step (.check call.1 call.2)).bind (·.step .flush)

/-- The limit by the day of a key is reached, and the gate defers for it. -/
def Tracker.dayReached (t : Tracker) (key : Key) (now : Time) : Bool :=
  key.msgClass ≠ auth && (t.config key).any fun q =>
    q.enforcement = hard && (t.rolled key now).day.breaches q.perDay

/-- The condition: no call of the key finds its limit by the day reached, and none is in a minute
that was left and whose row says that calls were blocked. -/
def blocksByMinute (key : Key) (s : Metering) (call : Key × Time) : Bool :=
  call.1 ≠ key ||
    (!s.tracker.dayReached key call.2 &&
      ((s.tracker.counters key).minute.windowStart = some (minuteWindowStart call.2) ||
        (s.usage.find? (key, granularityText .minute, minuteWindowStart call.2)).all
          (·.blocked = 0)))

/-- The calls of the key that were deferred in the minutes from `since` on. -/
def Metering.deferredSince (s : Metering) (key : Key) (since : Time) : Nat :=
  s.log.countP fun c => c.key = key && decide (since ≤ minuteWindowStart c.now) && !c.sends

/-! ## The invariant -/

section
variable {s s' : Metering} {key : Key} {now : Time} {call : Key × Time}

/-- A call that the day's limit does not block is charged to its minute when deferred. -/
theorem blocked_check (h : s.tracker.dayReached key now = false) :
    (checkAndRecord s.tracker key now |>.2.counters key).minute.blocked =
      (s.tracker.rolled key now).minute.blocked +
        if !(chargeOf s.tracker key now).sends then 1 else 0 := by
  have hc : ((checkAndRecord s.tracker key now).2.counters key).minute = _ :=
    counter_checkAndRecord (g := .minute)
  rw [hc, blockedBy_chargeOf]
  cases hsends : (chargeOf s.tracker key now).sends with
  | true => rfl
  | false =>
    -- the call is deferred, so it is not exempt and its quota is hard
    suffices hby : blockedBy s.tracker key now = .minute by rw [hby]; rfl
    rcases @checkAndRecord_charged s.tracker key now with ⟨d, hd, heq⟩ | ⟨_, heq⟩
    · have : (chargeOf s.tracker key now).sends = true := by simpa only [chargeOf, heq] using hd
      rw [this] at hsends
      cases hsends
    · have hstep := @checkAndRecord_cases s.tracker key now
      rw [heq] at hstep
      obtain ⟨hauth, q, hq, hhard⟩ := hstep.hard_of_defer
      simp only [Tracker.dayReached, hq, hhard, hauth, ne_eq, not_false_eq_true, decide_true,
        Bool.true_and, any_some] at h
      rw [blockedBy, hq, any_some, h]
      rfl

/-- The blocked calls of a key are kept, and its minute is written. -/
structure Metering.Shown (s : Metering) (key : Key) : Prop where
  tracked : s.Tracked
  kept : s.Kept key .minute Counter.blocked (fun c => !c.sends)
  current : ∀ ws, (s.tracker.counters key).minute.windowStart = some ws →
    ∃ r ∈ s.usage, r.id = (key, granularityText .minute, ws) ∧
      r.blocked = (s.tracker.counters key).minute.blocked

/-- A round keeps the blocked calls shown. -/
theorem Metering.Shown.round (h : s.Shown key) (hc : blocksByMinute key s call = true)
    (hs : s.round call = some s') : s'.Shown key := by
  obtain ⟨u, hu, hs'⟩ := bind_eq_some_iff.1 hs
  have htracked := h.tracked.step hu
  have hkept : u.Kept key .minute Counter.blocked (fun c => !c.sends) := by
    by_cases hkey : key = call.1
    · subst hkey
      obtain ⟨hday, hminute⟩ : s.tracker.dayReached call.1 call.2 = false ∧ _ := by
        simpa [blocksByMinute] using hc
      refine h.kept.check hu (hminute.imp id fun hzero => ⟨h.current, fun r hr hid => ?_⟩) rfl ?_
      · rw [← show _ = (call.1, granularityText .minute, minuteWindowStart call.2) from hid,
          find?_of_mem hr] at hzero
        exact of_decide_eq_true hzero
      · cases hu
        exact blocked_check hday
    · exact h.kept.check_of_ne hkey hu
  refine ⟨htracked.step hs', hkept.flush hs', fun ws hws => ?_⟩
  cases hs'
  have hkey := htracked key .minute (hws.trans_ne (some_ne_none ws))
  exact ⟨_, mem_flush_of_counter (g := .minute) u.usage hkey hws, rfl, rfl⟩

/-- Every row of a minute of the key shows the calls that were deferred there. -/
theorem Metering.Shown.blocked (h : s.Shown key) {r : UsageRow} (hr : r ∈ s.usage)
    (hkey : r.key = key) (hgran : r.granularity = "minute") :
    r.blocked = s.count key .minute r.windowStart (fun c => !c.sends) := by
  have hid : r.id = (key, granularityText .minute, r.windowStart) := by
    rw [← hkey]
    exact Prod.ext rfl (Prod.ext hgran rfl)
  by_cases hws : (s.tracker.counters key).minute.windowStart = some r.windowStart
  · obtain ⟨r', hr', hid', hblocked⟩ := h.current _ hws
    rw [show r.blocked = _ from congrArg _ (eq_of_key hr hr' (hid.trans hid'.symm)), hblocked]
    exact h.kept.current _ hws
  · exact h.kept.left _ r hws hr hid

/-- Every minute in which there was a call of the key has its row. -/
theorem Metering.Shown.exists_row (h : s.Shown key) {c : Charge} (hc : c ∈ s.log)
    (hkey : c.key = key) :
    ∃ r ∈ s.usage, r.id = (key, granularityText .minute, minuteWindowStart c.now) := by
  by_cases hws : (s.tracker.counters key).minute.windowStart = some (minuteWindowStart c.now)
  · obtain ⟨r, hr, hid, _⟩ := h.current _ hws
    exact ⟨r, hr, hid⟩
  · exact h.kept.written _ c hws hc (isIn_iff.2 ⟨hkey, rfl⟩)

end

/-! ## The figure -/

section
variable {s : Metering} {key : Key} {quotas : List ProducerQuota}
  {minuteStart dayStart since now : Time} {row : QuotaRow}
variable {usage : ProducerUsage}

/-- The order of the history does not matter for a sum over it. -/
theorem total_history {f : UsageRow → Nat} {p : UsageRow → Bool} :
    Indexed.total f ((usage.loadUsageHistory since).filter p) =
      Indexed.total f ((usage.rows.filter fun r =>
        r.granularity = "minute" && decide (since ≤ r.windowStart)).filter p) :=
  Indexed.total_perm ((mergeSort_perm _ _).filter p)

/-- The dashboard adds up the rows of the key's minutes from `since` on. -/
theorem mem_keyHistory {r : UsageRow} :
    r ∈ (usage.loadUsageHistory since).filter (·.key = key) ↔
      r ∈ usage ∧ r.granularity = "minute" ∧ since ≤ r.windowStart ∧ r.key = key := by
  simp only [ProducerUsage.loadUsageHistory, mem_filter, mem_mergeSort, Bool.and_eq_true,
    decide_eq_true_eq, Table.mem_def, and_assoc]

theorem nodup_keyHistory :
    (((usage.loadUsageHistory since).filter (·.key = key)).map (·.windowStart)).Nodup := by
  have hrows : ((usage.loadUsageHistory since).filter (·.key = key)).Nodup := by
    refine .filter _ ((mergeSort_perm _ _).nodup_iff.2 ?_)
    exact (List.Nodup.of_map _ usage.nodup).filter _
  refine hrows.map_on fun a ha b hb hws => ?_
  obtain ⟨ha, hagran, _, hakey⟩ := mem_keyHistory.1 ha
  obtain ⟨hb, hbgran, _, hbkey⟩ := mem_keyHistory.1 hb
  refine eq_of_key ha hb ?_
  simp only [UsageRow.id, hagran, hbgran, hakey, hbkey, hws]

/-- The sum over the rows counts every deferred call once. -/
theorem Metering.Shown.total_blocked (h : s.Shown key) :
    Indexed.total (·.blocked) ((s.usage.loadUsageHistory since).filter (·.key = key)) =
      s.deferredSince key since := by
  have hrow : ∀ r ∈ (s.usage.loadUsageHistory since).filter (·.key = key),
      r.blocked = s.log.countP fun c =>
        decide (minuteWindowStart c.now = r.windowStart) && (decide (c.key = key) && !c.sends) := by
    intro r hr
    obtain ⟨hr, hgran, _, hkey⟩ := mem_keyHistory.1 hr
    rw [h.blocked hr hkey hgran]
    refine countP_congr fun c _ => ?_
    simp only [Bool.and_eq_true, isIn_iff, decide_eq_true_eq, Granularity.windowStart, and_assoc,
      and_left_comm]
  rw [Indexed.total_congr hrow, Indexed.total_countP nodup_keyHistory]
  refine countP_congr fun c hc => ?_
  simp only [Bool.and_eq_true, decide_eq_true_eq, List.mem_map]
  constructor
  · rintro ⟨⟨r, hr, hws⟩, hkey, hsends⟩
    exact ⟨⟨hkey, hws ▸ (mem_keyHistory.1 hr).2.2.1⟩, hsends⟩
  · rintro ⟨⟨hkey, hsince⟩, hsends⟩
    obtain ⟨r, hr, hid⟩ := h.exists_row hc hkey
    simp only [UsageRow.id, granularityText, Prod.mk.injEq] at hid
    obtain ⟨hrkey, hgran, hws⟩ := hid
    exact ⟨⟨r, mem_keyHistory.2 ⟨hr, hgran, hws ▸ hsince, hrkey⟩, hws⟩, hkey, hsends⟩

/-- When the tracker is flushed after each call, no call of a key finds its limit by the day
reached, and none returns to a minute in which calls were blocked, the dashboard shows how many
calls of the key were deferred in the minutes of the last 24 hours. -/
theorem dashboard_blocked {zone : Zone} {config : Key → Option EffectiveQuota}
    {calls : List (Key × Time)}
    (h : Run.Steps Metering.round (fun s call => blocksByMinute key s call = true)
      (.start zone config) calls s)
    (hrow : row ∈ quotaDashboard quotas s.usage minuteStart dayStart now) (hkey : row.key = key) :
    row.blocked24h = s.deferredSince key (now - 24 * hour) := by
  have hshown : s.Shown key := by
    refine h.inv (I := fun s => s.Shown key) (fun s call s' hc hs hi => hi.round hc hs) ?_
    exact ⟨Metering.tracked_start, Metering.kept_start, fun ws hws => by cases hws⟩
  obtain ⟨q, _, rfl⟩ := List.mem_map.1 hrow
  cases hkey
  exact hshown.total_blocked

end

/-! ### Runs on fixed inputs -/

/-- The quota of the sample. -/
def ProducerQuota.oneAMinute : ProducerQuota :=
  ⟨⟨1⟩, "sms", "marketing", some 1, some 3, hard⟩

/-- Two calls in a minute: the second is blocked, and the dashboard shows it. -/
theorem dashboard_blocked_one :
    ∃ s, Run.Steps Metering.round (fun s call => blocksByMinute .sample s call = true)
        (.start utc Tracker.sample.config) [(.sample, 1), (.sample, 2)] s ∧
      s.deferredSince .sample (hour - 24 * hour) = 1 ∧
      ∀ row ∈ quotaDashboard [.oneAMinute] s.usage 0 0 hour,
        row.blocked24h = s.deferredSince .sample (hour - 24 * hour) := by
  obtain ⟨s, hs, hp⟩ := Run.Steps.exists_of_checked Metering.round (blocksByMinute .sample)
    (.start utc Tracker.sample.config) [(.sample, 1), (.sample, 2)]
    (fun s => s.deferredSince .sample (hour - 24 * hour) = 1) (by decide +kernel)
  refine ⟨s, hs, of_decide_eq_true hp, fun row hrow => dashboard_blocked hs hrow ?_⟩
  obtain ⟨q, hq, rfl⟩ := List.mem_map.1 hrow
  cases List.mem_singleton.1 hq
  rfl

/-- The fourth call is blocked by the limit by the day, and the dashboard shows none. -/
theorem day_deferral_not_shown :
    ∃ s, Run.Steps Metering.round Run.Any (.start utc Tracker.sample.config)
        [(.sample, 1), (.sample, minute), (.sample, 2 * minute), (.sample, 3 * minute)] s ∧
      (quotaDashboard [.oneAMinute] s.usage (3 * minute) 0 hour).map (·.blocked24h) = [0] ∧
      s.deferredSince .sample (hour - 24 * hour) = 1 := by
  obtain ⟨s, hs, hp⟩ := Run.Steps.exists_of_exec Metering.round
    (.start utc Tracker.sample.config)
    [(.sample, 1), (.sample, minute), (.sample, 2 * minute), (.sample, 3 * minute)]
    (fun s => Indexed.total (·.blocked) ((s.usage.rows.filter fun r =>
        r.granularity = "minute" && decide (hour - 24 * hour ≤ r.windowStart)).filter
          (·.key = .sample)) = 0 &&
      s.deferredSince .sample (hour - 24 * hour) = 1) (by decide +kernel)
  obtain ⟨hshown, hdeferred⟩ := Bool.and_eq_true_iff.1 hp
  refine ⟨s, hs, ?_, of_decide_eq_true hdeferred⟩
  exact congrArg (· :: []) (total_history.trans (of_decide_eq_true hshown))

end Messgr.Quota
