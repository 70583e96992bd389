import Messgr.Base
import Messgr.Lib.Zone

/-!
# The windows of a quota

`src/producer_quota/tracker.rs` counts by the UTC minute and by the local day of the tenant's zone.
The start of a day is its local midnight: where the clock shows it twice the first one, where it
skips it the midnight of UTC. `days_tile`: days tile time around an instant just if the clock has
shown the midnight of its date by then and that of the next date not yet and, around a midnight that
it skips, if the one of UTC is on the right side. Elsewhere a day can begin after an instant of it,
and the next one before (`days_overlap`).
-/

namespace Messgr.Quota

/-- Source: `minute_window_start`. -/
def minuteWindowStart (now : Time) : Time := now - now % minute

section
variable (z : Zone)

/-- The local date of an instant, as a number of days. -/
def localDate (now : Time) : Int := z.wall now / day

/-- The local time at which a date begins. -/
def midnight (date : Int) : Int := date * day

/-- Source: `resolve_local_midnight`. -/
def resolveLocalMidnight (naiveMidnight : Int) : Time :=
  (z.earliest naiveMidnight).getD naiveMidnight

/-- Source: `day_window_start`. -/
def dayWindowStart (now : Time) : Time :=
  resolveLocalMidnight z (midnight (localDate z now))

/-- Source: `next_day_window_start`. -/
def nextDayWindowStart (now : Time) : Time :=
  resolveLocalMidnight z (midnight (localDate z now + 1))

/-- The condition: the clock has shown the midnight of the date by now, or never shows it and it is
not before that midnight of UTC; and it has not shown the next one yet. If it never does, it is
before that midnight of UTC, at which the clock is in the next date or first shows a midnight. -/
structure MidnightsShown (now : Time) : Prop where
  own : (∃ u ≤ now, z.wall u = midnight (localDate z now)) ∨
    (∀ u, z.wall u ≠ midnight (localDate z now)) ∧ midnight (localDate z now) ≤ now
  notYet : ∀ u ≤ now, z.wall u ≠ midnight (localDate z now + 1)
  skipped : (∀ u, z.wall u ≠ midnight (localDate z now + 1)) →
    now < midnight (localDate z now + 1) ∧
      (localDate z (midnight (localDate z now + 1)) = localDate z now + 1 ∨
        z.earliest (midnight (localDate z (midnight (localDate z now + 1)))) =
          some (midnight (localDate z now + 1)))

end

section
variable {z : Zone} {now u : Time} {date : Int}

theorem localDate_of_wall (h : z.wall u = midnight date) : localDate z u = date := by
  rw [localDate, h, midnight]
  exact Int.mul_ediv_cancel _ (by decide)

theorem resolveLocalMidnight_of_earliest {l : Int} (h : z.earliest l = some u) :
    resolveLocalMidnight z l = u := by
  rw [resolveLocalMidnight, h]
  rfl

theorem resolveLocalMidnight_of_skipped {l : Int} (h : ∀ u, z.wall u ≠ l) :
    resolveLocalMidnight z l = l := by
  rw [resolveLocalMidnight, Zone.earliest_eq_none h]
  rfl

/-- A date has begun when its midnight was shown, or is skipped and past in UTC. -/
theorem resolveLocalMidnight_le_iff {l : Int} : resolveLocalMidnight z l ≤ now ↔
    (∃ u ≤ now, z.wall u = l) ∨ (∀ u, z.wall u ≠ l) ∧ l ≤ now := by
  by_cases h : ∃ u, z.wall u = l
  · obtain ⟨u, hu⟩ := h
    obtain ⟨v, hv, -⟩ := Zone.exists_earliest hu
    rw [resolveLocalMidnight_of_earliest hv]
    constructor
    · exact fun hle => .inl ⟨v, hle, Zone.wall_of_earliest hv⟩
    · rintro (⟨w, hle, hw⟩ | ⟨hnever, -⟩)
      · exact (Zone.le_of_earliest hv hw).trans hle
      · exact absurd hu (hnever u)
  · have hnever := not_exists.1 h
    rw [resolveLocalMidnight_of_skipped hnever]
    exact ⟨fun hle => .inr ⟨hnever, hle⟩,
      fun h => h.elim (fun ⟨u, _, hu⟩ => absurd hu (hnever u)) And.right⟩

/-- A date whose midnight the clock shows begins at a midnight. -/
theorem dayWindowStart_resolveLocalMidnight (h : z.wall u = midnight date) :
    dayWindowStart z (resolveLocalMidnight z (midnight date)) =
      resolveLocalMidnight z (midnight date) := by
  obtain ⟨v, hv, -⟩ := Zone.exists_earliest h
  have hdate := localDate_of_wall (Zone.wall_of_earliest hv)
  rw [resolveLocalMidnight_of_earliest hv, dayWindowStart, hdate,
    resolveLocalMidnight_of_earliest hv]

/-- One whose midnight it skips begins with its day if the clock is in that date by then, or shows a
midnight. -/
theorem dayWindowStart_midnight_iff (h : ∀ u, z.wall u ≠ midnight date) :
    dayWindowStart z (midnight date) = midnight date ↔ localDate z (midnight date) = date ∨
      z.earliest (midnight (localDate z (midnight date))) = some (midnight date) := by
  rw [dayWindowStart]
  cases hearliest : z.earliest (midnight (localDate z (midnight date))) with
  | some v =>
    rw [resolveLocalMidnight_of_earliest hearliest, Option.some.injEq]
    refine ⟨.inr, fun hor => hor.resolve_left fun hdate => ?_⟩
    rw [hdate] at hearliest
    exact h v (Zone.wall_of_earliest hearliest)
  | none =>
    rw [resolveLocalMidnight, hearliest, Option.getD_none]
    refine ⟨fun heq => .inl (Int.eq_of_mul_eq_mul_right (by decide) heq), fun hor => ?_⟩
    rw [hor.resolve_right nofun]

end

/-- Quota days tile time around an instant just if the clock shows its midnights so: it is within
its day, the instants of its date have the same day, and the next day begins at the instant that a
day breach defers to. -/
theorem days_tile (z : Zone) (now : Time) :
    (dayWindowStart z now ≤ now ∧ now < nextDayWindowStart z now ∧
      (∀ v, localDate z v = localDate z now → dayWindowStart z v = dayWindowStart z now) ∧
      dayWindowStart z (nextDayWindowStart z now) = nextDayWindowStart z now) ↔
    MidnightsShown z now := by
  have hsame : ∀ v, localDate z v = localDate z now → dayWindowStart z v = dayWindowStart z now :=
    fun v hv => congrArg (fun d => resolveLocalMidnight z (midnight d)) hv
  have hown := @resolveLocalMidnight_le_iff z now (midnight (localDate z now))
  have hnext := @resolveLocalMidnight_le_iff z now (midnight (localDate z now + 1))
  constructor
  · rintro ⟨hle, hlt, -, hfix⟩
    refine ⟨hown.1 hle, fun u hu hwall => ?_, fun hnever => ?_⟩
    · exact absurd (hnext.2 (.inl ⟨u, hu, hwall⟩)) (Int.not_le.2 hlt)
    · rw [nextDayWindowStart, resolveLocalMidnight_of_skipped hnever] at hlt hfix
      exact ⟨hlt, (dayWindowStart_midnight_iff hnever).1 hfix⟩
  · rintro ⟨hself, hnot, hskipped⟩
    refine ⟨hown.2 hself, Int.not_le.1 fun hle => ?_, hsame, ?_⟩
    · rcases hnext.1 hle with ⟨u, hu, hwall⟩ | ⟨hnever, hle⟩
      · exact hnot u hu hwall
      · exact Int.not_lt.2 hle (hskipped hnever).1
    · by_cases hshown : ∃ u, z.wall u = midnight (localDate z now + 1)
      · obtain ⟨u, hu⟩ := hshown
        exact dayWindowStart_resolveLocalMidnight hu
      · have hnever := not_exists.1 hshown
        rw [nextDayWindowStart, resolveLocalMidnight_of_skipped hnever]
        exact (dayWindowStart_midnight_iff hnever).2 (hskipped hnever).2

/-- A clock of UTC that is never changed. -/
def utc : Zone := .ofTransitions 0 []

/-- A clock three hours before UTC that is put forward from midnight to one o'clock. -/
def skipsWest : Zone := .ofTransitions (-3 * hour) [(day + 3 * hour, -2 * hour)]

/-- The day of a midnight that is skipped, at noon. -/
theorem days_tile_noon : MidnightsShown skipsWest (day + 12 * hour) ∧
    dayWindowStart skipsWest (day + 12 * hour) ≤ day + 12 * hour ∧
    dayWindowStart skipsWest (nextDayWindowStart skipsWest (day + 12 * hour)) =
      2 * day + 2 * hour := by
  have hwall (u : Int) :
      skipsWest.wall u = u + if u < 97200000000 then -10800000000 else -7200000000 := rfl
  have hnext : midnight (localDate skipsWest (day + 12 * hour) + 1) = 172800000000 := by decide
  have hshown : MidnightsShown skipsWest (day + 12 * hour) := by
    refine ⟨.inr ⟨fun u h => ?_, by decide⟩, fun u hu h => ?_, fun h => ?_⟩
    · have hown : midnight (localDate skipsWest (day + 12 * hour)) = 86400000000 := by decide
      rw [hwall, hown] at h
      split at h <;> omega
    · have hu : @LE.le Int _ u 129600000000 := hu
      rw [hwall, hnext] at h
      split at h <;> omega
    · exact absurd (by decide) (h (2 * day + 2 * hour))
  obtain ⟨hle, -, -, hfix⟩ := (days_tile _ _).2 hshown
  exact ⟨hshown, hle, hfix.trans (by decide +kernel)⟩

/-- A clock two hours after UTC that is put forward from midnight to one o'clock. -/
def skipsEast : Zone := .ofTransitions (2 * hour) [(day - 2 * hour, 3 * hour)]

/-- A clock that shows UTC and is put back by an hour half an hour after midnight. -/
def repeats : Zone := .ofTransitions 0 [(day + hour / 2, -hour)]

/-- Where the midnight is skipped, the next day begins before an instant of the day, or a day after
one of its own; where it is shown twice, the next day begins before an instant of the day. -/
theorem days_overlap :
    (∃ now, nextDayWindowStart skipsWest now ≤ now ∧
      dayWindowStart skipsWest (nextDayWindowStart skipsWest now) ≠
        nextDayWindowStart skipsWest now) ∧
    (∃ now, now < dayWindowStart skipsEast now) ∧
    ∃ now, nextDayWindowStart repeats now ≤ now := by
  refine ⟨⟨day + 2 * hour, by decide +kernel, by decide +kernel⟩,
    ⟨day - hour, by decide +kernel⟩, ⟨day + 3 * hour / 4, by decide +kernel⟩⟩

end Messgr.Quota
