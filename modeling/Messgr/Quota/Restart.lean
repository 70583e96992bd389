import Messgr.Quota.Usage

/-!
# A restart of the tracker

At its start a dispatcher reads the rows of the current minute and day of `producer_usage`, and
counts on from there. `restart_preserves_decisions`: when the tracker before was flushed, and the
times of its calls did not go back, the new one decides every later call as the old one would have.
The two agree from an instant on when every later call rolls their counters to the same
(`AgreeFrom`). Time does not return to a window that it has left (`Unbroken`), so a row of the
current window is the one of the counter.
-/

namespace Messgr.Quota

open List Option
open Charges (Granularity)

/-! ## Windows that are not returned to -/

/-- Between two instants of a window all instants are in it. -/
def Unbroken (f : Time → Time) : Prop :=
  ∀ u v w, u ≤ v → v ≤ w → f u = f w → f v = f u

theorem Unbroken.of_mono {f : Time → Time} (h : ∀ u v, u ≤ v → f u ≤ f v) :
    Unbroken f := by
  intro u v w huv hvw heq
  exact Int.le_antisymm (heq ▸ h v w hvw) (h u v huv)

theorem unbroken_minute : Unbroken minuteWindowStart := by
  refine .of_mono fun (u v : Int) (huv : u ≤ v) => ?_
  show u - u % (60 * 1000000) ≤ v - v % (60 * 1000000)
  omega

section
variable {z : Zone}

section
variable (hoffset : ∀ u, -day < z.offset u ∧ z.offset u < day)
include hoffset

/-- No offset is a day or more, so no two dates begin at one instant. -/
theorem resolveLocalMidnight_injective
    {d d' : Int} (h : resolveLocalMidnight z (midnight d) = resolveLocalMidnight z (midnight d')) :
    d = d' := by
  -- the midnight that is shown, and one that is not
  have hshown : ∀ {d d' : Int}, z.wall (midnight d') = midnight d → d = d' := by
    intro d d' hw
    have hday : ∀ o : Int, d' * 86400000000 + o = d * 86400000000 →
        -86400000000 < o ∧ o < 86400000000 → d = d' := by
      intro o ho hbound
      omega
    exact hday _ hw (hoffset _)
  unfold resolveLocalMidnight at h
  cases hd : z.earliest (midnight d) with
  | none =>
    cases hd' : z.earliest (midnight d') with
    | none =>
      rw [hd, hd'] at h
      exact Int.eq_of_mul_eq_mul_right (by decide) h
    | some u' =>
      rw [hd, hd', getD_none, getD_some] at h
      exact (hshown (h ▸ Zone.wall_of_earliest hd')).symm
  | some u =>
    cases hd' : z.earliest (midnight d') with
    | none =>
      rw [hd, hd', getD_none, getD_some] at h
      exact hshown (h ▸ Zone.wall_of_earliest hd)
    | some u' =>
      rw [hd, hd'] at h
      cases h
      have := (Zone.wall_of_earliest hd).symm.trans (Zone.wall_of_earliest hd')
      exact Int.eq_of_mul_eq_mul_right (by decide) this

/-- A zone whose date does not go back does not return to a day. -/
theorem unbroken_day
    (hdate : ∀ u v, u ≤ v → localDate z u ≤ localDate z v) : Unbroken (dayWindowStart z) := by
  intro u v w huv hvw heq
  have hsame := Unbroken.of_mono hdate u v w huv hvw (resolveLocalMidnight_injective hoffset heq)
  rw [dayWindowStart, hsame, dayWindowStart]

theorem unbroken_windowStart
    (hdate : ∀ u v, u ≤ v → localDate z u ≤ localDate z v) (g : Granularity) :
    Unbroken (g.windowStart z) := by
  cases g with
  | minute => exact unbroken_minute
  | day => exact unbroken_day hoffset hdate

end

end

/-! ## Trackers that agree -/

/-- The decisions of calls that are made one after another. -/
def decisions : Tracker → List (Key × Time) → List QuotaDecision
  | _, [] => []
  | t, (key, now) :: calls =>
    (checkAndRecord t key now).1 :: decisions (checkAndRecord t key now).2 calls

/-- From an instant on every call rolls the two trackers' counters to the same. -/
structure Tracker.AgreeFrom (now : Time) (t t' : Tracker) : Prop where
  zone : t'.zone = t.zone
  config : t'.config = t.config
  rolled : ∀ key v, now ≤ v → t'.rolled key v = t.rolled key v

section
variable {t t' : Tracker} {key : Key} {now v : Time}

/-- A call depends on the counters that it rolls. -/
theorem checkAndRecord_congr (hzone : t'.zone = t.zone) (hconfig : t'.config = t.config)
    (hrolled : t'.rolled key now = t.rolled key now) :
    (checkAndRecord t' key now).1 = (checkAndRecord t key now).1 ∧
      (checkAndRecord t' key now).2.counters key = (checkAndRecord t key now).2.counters key := by
  unfold checkAndRecord Tracker.recordAdmit
  rw [hzone, hconfig, hrolled]
  constructor
  · split
    · rfl
    · split
      · rfl
      · dsimp only
        split_ifs <;> rfl
  · split
    · simp
    · split
      · simp
      · dsimp only
        split_ifs <;> simp

/-- Trackers that agree decide alike, and agree afterwards. -/
theorem Tracker.AgreeFrom.check (h : t.AgreeFrom now t') (key : Key) (hv : now ≤ v) :
    (checkAndRecord t' key v).1 = (checkAndRecord t key v).1 ∧
      Tracker.AgreeFrom v (checkAndRecord t key v).2 (checkAndRecord t' key v).2 := by
  obtain ⟨hdecision, hcounters⟩ := checkAndRecord_congr h.zone h.config (h.rolled key v hv)
  have hstep := @checkAndRecord_cases t key v
  have hstep' := @checkAndRecord_cases t' key v
  have hzone : (checkAndRecord t' key v).2.zone = (checkAndRecord t key v).2.zone := by
    rw [hstep.zone, hstep'.zone, h.zone]
  refine ⟨hdecision, hzone, ?_, fun key' w hw => ?_⟩
  · rw [hstep.config, hstep'.config, h.config]
  · by_cases hkey : key' = key
    · subst hkey
      rw [Tracker.rolled, Tracker.rolled, hcounters, hzone]
    · have := h.rolled key' w (hv.trans hw)
      rw [Tracker.rolled, Tracker.rolled, h.zone] at this
      rw [Tracker.rolled, Tracker.rolled, hstep.counters_of_ne hkey, hstep'.counters_of_ne hkey,
        hstep.zone, hstep'.zone, h.zone]
      exact this

/-- Trackers that agree from an instant on decide the calls after it alike. -/
theorem Tracker.AgreeFrom.decisions_eq {calls : List (Key × Time)}
    (h : t.AgreeFrom now t') (hcalls : (calls.map (·.2)).Pairwise (· ≤ ·))
    (hfrom : ∀ call ∈ calls, now ≤ call.2) : decisions t' calls = decisions t calls := by
  induction calls generalizing t t' now with
  | nil => rfl
  | cons call calls ih =>
    obtain ⟨key, v⟩ := call
    rw [map_cons, pairwise_cons] at hcalls
    obtain ⟨hdecision, hagree⟩ := h.check key (hfrom (key, v) (.head _))
    rw [decisions, decisions, hdecision]
    refine congrArg _ (ih hagree hcalls.2 fun call hcall => ?_)
    exact hcalls.1 _ (mem_map.2 ⟨call, hcall, rfl⟩)

end

/-! ## The counters that are read -/

/-- A new tracker with the counters of the current windows. Source: `src/bin/dispatcher.rs`, `main`;
`rebuild_from_db`. -/
def restart (zone : Zone) (config : Key → Option EffectiveQuota) (usage : ProducerUsage)
    (now : Time) : Tracker :=
  rebuildFromDb { Tracker.new zone with config := config }
    (usage.loadCurrentUsage (minuteWindowStart now) (dayWindowStart zone now))

section
variable {t : Tracker} {rows : List UsageRow} {key : Key} {g : Granularity}

theorem rebuildFromDb_zone : (rebuildFromDb t rows).zone = t.zone := by
  unfold rebuildFromDb
  induction rows generalizing t with
  | nil => rfl
  | cons row rows ih =>
    rw [foldl_cons, ih]
    rfl

/-- A counter is that of a row of its key and granularity, or it was not read. -/
theorem rebuildFromDb_cases : (∃ r ∈ rows, r.key = key ∧ (r.granularity = "minute" ↔ g = .minute) ∧
      g.counter ((rebuildFromDb t rows).counters key) = r.counter) ∨
    (∀ r ∈ rows, r.key = key → ¬ (r.granularity = "minute" ↔ g = .minute)) ∧
      g.counter ((rebuildFromDb t rows).counters key) = g.counter (t.counters key) := by
  induction rows generalizing t with
  | nil => exact .inr ⟨fun r hr => absurd hr not_mem_nil, rfl⟩
  | cons row rows ih =>
    rw [show rebuildFromDb t (row :: rows) = rebuildFromDb _ rows from foldl_cons ..]
    rcases ih (t := t.withCounters row.key _) with ⟨r, hr, h⟩ | ⟨hnone, h⟩
    · exact .inl ⟨r, .tail _ hr, h⟩
    · rw [h]
      -- no later row is of the counter, so it is that of the row or the one from before
      by_cases hkey : row.key = key
      · subst hkey
        rw [counters_withCounters_self]
        by_cases hread : row.granularity = "minute" ↔ g = .minute
        · refine .inl ⟨row, .head _, rfl, hread, ?_⟩
          cases g with
          | minute => rw [if_pos (hread.2 rfl)]; rfl
          | day => rw [if_neg fun h => absurd (hread.1 h) (by decide)]; rfl
        · refine .inr ⟨fun r hr => ?_, ?_⟩
          · rcases mem_cons.1 hr with rfl | hr
            · exact fun _ => hread
            · exact hnone r hr
          · cases g with
            | minute => rw [if_neg fun h => hread ⟨fun _ => rfl, fun _ => h⟩]; rfl
            | day =>
              rw [if_pos (not_not.1 fun h => hread ⟨fun h' => absurd h' h, fun h' => by cases h'⟩)]
              rfl
      · rw [counters_withCounters_of_ne (.symm hkey)]
        refine .inr ⟨fun r hr => ?_, rfl⟩
        rcases mem_cons.1 hr with rfl | hr
        · exact fun h => absurd h hkey
        · exact hnone r hr

end

/-! ## The rows that are written -/

/-- The condition: the times of the calls do not go back. -/
def timesAscend (s : Metering) : MeteringAct → Bool
  | .check _ now => s.log.all fun c => decide (c.now ≤ now)
  | _ => true

/-- The window of a counter is of a logged call, and the rows of its key are of windows no later;
without a window there are none. -/
structure Metering.Chronicled (s : Metering) (key : Key) (g : Granularity) : Prop where
  unset : (g.counter (s.tracker.counters key)).windowStart = none → ∀ r ∈ s.usage, r.key = key →
    r.granularity ≠ granularityText g
  latest : ∀ ws, (g.counter (s.tracker.counters key)).windowStart = some ws →
    ∃ c ∈ s.log, ws = g.windowStart s.tracker.zone c.now ∧
      ∀ r ∈ s.usage, r.key = key → r.granularity = granularityText g →
        ∃ d ≤ c.now, r.windowStart = g.windowStart s.tracker.zone d

section
variable {s s' : Metering} {key key' : Key} {g : Granularity} {a : MeteringAct} {now : Time}

theorem zone_of_step (hs : s.step a = some s') : s'.tracker.zone = s.tracker.zone := by
  cases a with
  | check key now =>
    cases hs
    exact zone_check
  | flush | refreshConfig => cases hs; rfl

theorem Metering.chronicled_start {zone : Zone} {config : Key → Option EffectiveQuota} :
    (Metering.start zone config).Chronicled key g where
  unset _ r hr := absurd hr (Table.not_mem_empty r)
  latest ws h := by cases g <;> cases h

/-- A call in time order keeps the windows in order. -/
theorem Metering.Chronicled.check (h : s.Chronicled key g)
    (hc : timesAscend s (.check key' now) = true) (hs : s.step (.check key' now) = some s') :
    s'.Chronicled key g := by
  cases hs
  have hstep := @checkAndRecord_cases s.tracker key' now
  by_cases hkey : key = key'
  · subst hkey
    have hws := @windowStart_checkAndRecord s.tracker key now g
    refine ⟨fun hnone => ?_, fun ws hws' => ?_⟩
    · rw [hws] at hnone
      cases hnone
    · obtain rfl := Option.some.inj (hws.symm.trans hws')
      refine ⟨chargeOf s.tracker key now, mem_append_right _ (.head _), ?_, ?_⟩
      · rw [hstep.zone]
        rfl
      · intro r hr hrkey hgran
        rw [hstep.zone]
        cases hold : (s.counter key g).windowStart with
        | none => exact absurd hgran (h.unset hold r hr hrkey)
        | some old =>
          obtain ⟨c, hcmem, _, hrows⟩ := h.latest old hold
          obtain ⟨d, hd, hrws⟩ := hrows r hr hrkey hgran
          exact ⟨d, hd.trans (of_decide_eq_true (all_eq_true.1 hc c hcmem)), hrws⟩
  · have hctr : (checkAndRecord s.tracker key' now).2.counters key = s.tracker.counters key :=
      hstep.counters_of_ne hkey
    refine ⟨fun hnone => ?_, fun ws hws => ?_⟩
    · rw [hctr] at hnone
      exact h.unset hnone
    · rw [hctr] at hws
      obtain ⟨c, hcmem, hcws, hrows⟩ := h.latest ws hws
      rw [hstep.zone]
      exact ⟨c, mem_append_left _ hcmem, hcws, hrows⟩

/-- A flush keeps the windows in order. -/
theorem Metering.Chronicled.flush (h : s.Chronicled key g) (hs : s.step .flush = some s') :
    s'.Chronicled key g := by
  cases hs
  -- a row of the key that the flush writes is of the window of its counter
  have hrow : ∀ r ∈ s.tracker.flush s.keys s.usage, r.key = key →
      r.granularity = granularityText g → r ∈ s.usage ∨
        (s.counter key g).windowStart = some r.windowStart := by
    intro r hr hkey hgran
    rcases mem_flush.1 hr with hr | hr
    · have hid : r.id = (key, granularityText g, r.windowStart) := by rw [← hkey, ← hgran]
      exact .inr (id_of_usageRow ((mem_usageRows_of_id hid).1 hr).2).2
    · exact .inl hr.1
  refine ⟨fun hnone r hr hkey hgran => ?_, fun ws hws => ?_⟩
  · rcases hrow r hr hkey hgran with hr | hr
    · exact h.unset hnone r hr hkey hgran
    · rw [hnone] at hr
      cases hr
  · obtain ⟨c, hcmem, hcws, hrows⟩ := h.latest ws hws
    refine ⟨c, hcmem, hcws, fun r hr hkey hgran => ?_⟩
    rcases hrow r hr hkey hgran with hr | hr
    · exact hrows r hr hkey hgran
    · exact ⟨c.now, le_rfl, (Option.some.inj (hr.symm.trans hws)).trans hcws⟩

theorem Metering.Chronicled.step (h : s.Chronicled key g) (hc : timesAscend s a = true)
    (hs : s.step a = some s') : s'.Chronicled key g := by
  cases a with
  | check key' now => exact h.check hc hs
  | flush => exact h.flush hs
  | refreshConfig config =>
    cases hs
    exact ⟨h.unset, h.latest⟩

end

/-! ## The restart -/

variable {usage : ProducerUsage}

theorem mem_loadCurrentUsage {m d : Time} {r : UsageRow} :
    r ∈ usage.loadCurrentUsage m d ↔ r ∈ usage ∧
      (r.granularity = "minute" ∧ r.windowStart = m ∨
        r.granularity = "day" ∧ r.windowStart = d) := by
  simp only [ProducerUsage.loadCurrentUsage, mem_filter, Bool.or_eq_true, Bool.and_eq_true,
    decide_eq_true_eq, Table.mem_def]

/-- A counter is read from the rows of its granularity and current window. -/
theorem mem_loadCurrentUsage_of_read {z : Zone} {now : Time} {r : UsageRow} {g : Granularity} :
    r ∈ usage.loadCurrentUsage (minuteWindowStart now) (dayWindowStart z now) ∧
        (r.granularity = "minute" ↔ g = .minute) ↔
      r ∈ usage ∧ r.granularity = granularityText g ∧ r.windowStart = g.windowStart z now := by
  have hne : ("day" : String) ≠ "minute" := by decide
  rw [mem_loadCurrentUsage]
  cases g with
  | minute =>
    simp only [granularityText, Granularity.windowStart]
    constructor
    · rintro ⟨⟨hr, h | h⟩, hread⟩
      · exact ⟨hr, h⟩
      · exact absurd (h.1.symm.trans (hread.2 trivial)) hne
    · rintro ⟨hr, h⟩
      exact ⟨⟨hr, .inl h⟩, by simp [h.1]⟩
  | day =>
    simp only [granularityText, Granularity.windowStart]
    constructor
    · rintro ⟨⟨hr, h | h⟩, hread⟩
      · exact absurd (hread.1 h.1) (by decide)
      · exact ⟨hr, h⟩
    · rintro ⟨hr, h⟩
      exact ⟨⟨hr, .inr h⟩, by simp [h.1]⟩

section
variable {s s' : Metering} {key : Key} {g : Granularity} {now v : Time}

/-- After a restart every later call rolls a counter to what it would have been. -/
theorem Metering.Chronicled.roll_restart (h : s.Chronicled key g) (ht : s.Tracked)
    (hf : Unbroken (g.windowStart s.tracker.zone)) (hflush : s.step .flush = some s')
    (hnow : ∀ c ∈ s.log, c.now ≤ now) (hv : now ≤ v) :
    (g.counter ((restart s.tracker.zone s.tracker.config s'.usage now).counters key)).roll
        (g.windowStart s.tracker.zone v) =
      (s.counter key g).roll (g.windowStart s.tracker.zone v) := by
  have h' := h.flush hflush
  cases hflush
  rcases @rebuildFromDb_cases _ _ key g with ⟨r, hr, hkey, hread, heq⟩ | ⟨hnone, heq⟩
  · rw [restart, heq]
    obtain ⟨hr, hgran, hws⟩ := mem_loadCurrentUsage_of_read.1 ⟨hr, hread⟩
    cases hold : (s.counter key g).windowStart with
    | none => exact absurd hgran (h'.unset hold r hr hkey)
    | some ws =>
      -- the row is of the current window, so it is the one of the counter
      obtain ⟨c, hcmem, hcws, hrows⟩ := h'.latest ws hold
      obtain ⟨d, hd, hdws⟩ := hrows r hr hkey hgran
      have hsame : ws = r.windowStart := by
        rw [hcws, hdws]
        exact hf d c.now now hd (hnow c hcmem) (hdws.symm.trans hws)
      have hmem := mem_flush_of_counter s.usage (ht key g (hold.trans_ne (by simp))) hold
      have hrow := Table.eq_of_key hr hmem (by rw [UsageRow.id, hkey, hgran, ← hsame])
      rw [hrow, UsageRow.counter, ← hold]
  · rw [restart, heq]
    have hfresh : ∀ {c : Counter}, c.windowStart ≠ some (g.windowStart s.tracker.zone v) →
        c.roll (g.windowStart s.tracker.zone v) = ⟨some (g.windowStart s.tracker.zone v), 0, 0⟩ :=
      fun hc => if_pos hc
    rw [hfresh (by cases g <;> exact fun h => by cases h), hfresh]
    intro hold
    -- the counter is in the window of the call, so it was in the current one, and was read
    obtain ⟨c, hcmem, hcws, _⟩ := h'.latest _ hold
    have hcur := hf c.now now v (hnow c hcmem) hv hcws.symm
    have hmem := mem_flush_of_counter s.usage (ht key g (hold.trans_ne (by simp))) hold
    have hread := mem_loadCurrentUsage_of_read.2 ⟨hmem, rfl, hcws.trans hcur.symm⟩
    exact hnone _ hread.1 rfl hread.2

end

/-- In a zone whose date does not go back, after calls of the tracker whose times do not go back and
flushes of it in any order, a tracker that is restarted from what the last flush wrote decides all
later calls as the old one does. The offsets of a zone are less than a day
(`chrono::FixedOffset`). -/
theorem restart_preserves_decisions {zone : Zone}
    (hoffset : ∀ u, -day < zone.offset u ∧ zone.offset u < day)
    (hdate : ∀ u v, u ≤ v → localDate zone u ≤ localDate zone v)
    {config : Key → Option EffectiveQuota} {as : List MeteringAct} {s s' : Metering}
    (h : Run.Steps Metering.step (fun s a => timesAscend s a = true) (.start zone config) as s)
    (hflush : s.step .flush = some s') {now : Time} (hnow : ∀ c ∈ s.log, c.now ≤ now)
    {calls : List (Key × Time)} (hcalls : (calls.map (·.2)).Pairwise (· ≤ ·))
    (hfrom : ∀ call ∈ calls, now ≤ call.2) :
    decisions (restart zone s'.tracker.config s'.usage now) calls = decisions s'.tracker calls := by
  have hzone : s.tracker.zone = zone :=
    h.inv (I := fun s => s.tracker.zone = zone)
      (fun _ _ _ _ hs hi => (zone_of_step hs).trans hi) rfl
  subst hzone
  have hroll : ∀ key (g : Granularity) v, now ≤ v → _ := fun key g v hv =>
    Metering.Chronicled.roll_restart
      (h.inv (I := fun s => s.Chronicled key g) (fun _ _ _ hc hs hi => hi.step hc hs)
        Metering.chronicled_start)
      (Metering.tracked_of_steps h) (unbroken_windowStart hoffset hdate g) hflush hnow hv
  cases hflush
  have hagree : s.tracker.AgreeFrom now
      (restart s.tracker.zone s.tracker.config (s.tracker.flush s.keys s.usage) now) := by
    refine ⟨rebuildFromDb_zone, rebuildFromDb_config _ _, fun key v hv => ?_⟩
    have hzone : (restart s.tracker.zone s.tracker.config
        (s.tracker.flush s.keys s.usage) now).zone = s.tracker.zone := rebuildFromDb_zone
    rw [Tracker.rolled, Tracker.rolled, hzone]
    exact congrArg₂ Counters.mk (hroll key .minute v hv) (hroll key .day v hv)
  exact hagree.decisions_eq hcalls hfrom

/-! ### A run on fixed inputs -/

/-- Calls in two minutes, the first of which is flushed. -/
def twoMinutes : List MeteringAct :=
  [.check .sample 1, .check .sample 2, .flush, .check .sample minute]

/-- In the second minute the restarted tracker defers at once, in the third it admits, and then the
limit by the day is reached. -/
theorem restart_preserves_decisions_twoMinutes :
    ∃ s s', Run.Steps Metering.step (fun s a => timesAscend s a = true)
        (.start utc Tracker.sample.config) twoMinutes s ∧ s.step .flush = some s' ∧
      decisions s'.tracker
          [(.sample, minute + 2), (.sample, 2 * minute), (.sample, 3 * minute)] =
        [.defer (2 * minute), .admitted, .defer day] ∧
      decisions (restart utc s'.tracker.config s'.usage (minute + 1))
          [(.sample, minute + 2), (.sample, 2 * minute), (.sample, 3 * minute)] =
        decisions s'.tracker
          [(.sample, minute + 2), (.sample, 2 * minute), (.sample, 3 * minute)] := by
  obtain ⟨s, hs, hp⟩ := Run.Steps.exists_of_checked Metering.step timesAscend
    (.start utc Tracker.sample.config) twoMinutes
    (fun s => s.log.all (fun c => decide (c.now ≤ minute + 1)) && (s.step .flush).any fun s' =>
      decisions s'.tracker
          [(.sample, minute + 2), (.sample, 2 * minute), (.sample, 3 * minute)] =
        [.defer (2 * minute), .admitted, .defer day]) (by decide +kernel)
  obtain ⟨hnow, hp⟩ := Bool.and_eq_true_iff.1 hp
  obtain ⟨s', hs', hdecisions⟩ := (Option.any_eq_true _ _).1 hp
  refine ⟨s, s', hs, hs', of_decide_eq_true hdecisions,
    restart_preserves_decisions ?_ ?_ hs hs' ?_ ?_ ?_⟩
  · exact fun u => (show -day < 0 ∧ 0 < day by decide)
  · exact fun u v huv => Int.ediv_le_ediv (by decide) (Int.add_le_add_right huv 0)
  · exact fun c hc => of_decide_eq_true (List.all_eq_true.1 hnow c hc)
  · decide
  · decide

end Messgr.Quota
