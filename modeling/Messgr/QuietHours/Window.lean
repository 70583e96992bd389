import Messgr.Base
import Messgr.Lib.Zone

/-!
# Quiet hours

`src/quiet_hours/window.rs` defers a send that falls into the quiet hours of the customer's local
time to the end of the window, plus a jitter. The end is a local time, and its instant is found in
the tables of the zone: the first one at which the clock shows it or, where the clock skips it,
shows one of the minutes after it.

`quiet_hours_defer`: nothing is deferred outside the window, and inside it a send is deferred to
within 31 minutes of the first instant outside, just if the clock first shows the end of the window,
or the first minute after it that it shows, at that instant or in the minute after it. Elsewhere a
clock that is put back or forward leaves the window (`quiet_hours_missed`).
-/

namespace Messgr.QuietHours

open Nat

/-- A `time` column, `NaiveTime`: microseconds since midnight. -/
@[ext] structure NaiveTime where
  micros : Int
  nonneg : 0 ≤ micros
  lt_day : micros < day

/-- The time of day of a local time. -/
def timeOf (l : Int) : NaiveTime :=
  ⟨l % day, Int.emod_nonneg _ (by decide), Int.emod_lt_of_pos _ (by decide)⟩

/-- A row of `quiet_hours_policy`; its scope is not read. Source: `src/quiet_hours/model.rs`. -/
structure QuietHoursPolicy where
  startLocal : NaiveTime
  endLocal : NaiveTime

/-- Source: `JITTER_MAX_MS`. -/
def jitterMaxMs : Nat := 30 * 60 * 1000

/-- What `rand::rng().random_range(0..=JITTER_MAX_MS)` draws. -/
abbrev Jitter := Fin (jitterMaxMs + 1)

def Jitter.micros (j : Jitter) : Int := j.val * 1000

/-- Source: `MAX_GAP_SEARCH`, in minutes. -/
def maxGapSearch : Nat := 4 * 60

section
variable (p : QuietHoursPolicy)

/-- Source: `resolve_reschedule`. -/
def QuietHoursPolicy.wraps : Bool := p.startLocal.micros > p.endLocal.micros

/-- Source: `resolve_reschedule`. -/
def QuietHoursPolicy.inWindow (time : NaiveTime) : Bool :=
  if p.wraps then p.startLocal.micros ≤ time.micros || time.micros < p.endLocal.micros
  else p.startLocal.micros ≤ time.micros && time.micros < p.endLocal.micros

/-- The local time at which the window of a local time ends. Source: `resolve_reschedule`,
`end_date`. -/
def QuietHoursPolicy.windowEnd (l : Int) : Int :=
  let endDate := if p.wraps && p.startLocal.micros ≤ (timeOf l).micros then l / day + 1 else l / day
  endDate * day + p.endLocal.micros

end

/-- The loop of `resolve_local`; `left` is the number of minutes from the candidate to the
deadline. -/
def roundForward (z : Zone) (candidate : Int) (left : Nat) : Option Time :=
  match z.earliest candidate with
  | some u => some u
  | none =>
    match left with
    | 0 => none
    | left + 1 => roundForward z (candidate + minute) left

/-- Source: `resolve_local`. -/
def resolveLocal (z : Zone) (l : Int) : Option Time := roundForward z l maxGapSearch

/-- The zone of a customer, with `Tz::from_str` as a parameter. Source: `resolve_reschedule`, `tz`.
-/
def resolveTz (fromStr : String → Option Zone) (customerTz tenantDefaultTz : String) :
    Option Zone :=
  (fromStr customerTz).or (fromStr tenantDefaultTz)

/-- Source: `resolve_reschedule`. -/
def resolveReschedule (fromStr : String → Option Zone) (now : Time)
    (customerTz tenantDefaultTz : String) (policy : QuietHoursPolicy) (jitter : Jitter) :
    Option Time :=
  (resolveTz fromStr customerTz tenantDefaultTz).bind fun tz =>
    let localNow := tz.wall now
    if policy.inWindow (timeOf localNow) then
      (resolveLocal tz (policy.windowEnd localNow)).map (· + jitter.micros)
    else none

/-! ## When the window ends -/

/-- The clock of the zone is in the quiet hours. -/
def Quiet (z : Zone) (p : QuietHoursPolicy) (u : Int) : Prop :=
  p.inWindow (timeOf (z.wall u)) = true

instance (z : Zone) (p : QuietHoursPolicy) (u : Int) : Decidable (Quiet z p u) :=
  inferInstanceAs (Decidable (_ = true))

/-- The first instant after `now` outside the quiet hours. -/
structure FirstOutside (z : Zone) (p : QuietHoursPolicy) (now f : Int) : Prop where
  after : now < f
  outside : ¬ Quiet z p f
  inside : ∀ u, now < u → u < f → Quiet z p u

/-- The local time `e` is the first one after `l` at the time of day. -/
structure IsNext (time : NaiveTime) (l e : Int) : Prop where
  after : l < e
  within : e ≤ l + day
  time : timeOf e = time

/-- The clock never shows the local time `e` and the `k - 1` minutes after it, and first shows the
next one at `u`. -/
structure FirstShown (z : Zone) (e : Int) (k : Nat) (u : Int) : Prop where
  skipped : ∀ j < k, ∀ v, z.wall v ≠ e + j * minute
  shown : z.wall u = e + k * minute
  first : ∀ v < u, z.wall v ≠ e + k * minute

section
variable {z : Zone} {p : QuietHoursPolicy} {e f u : Int}

theorem minute_eq : @Eq Int minute 60000000 := rfl

theorem day_eq : @Eq Int day 86400000000 := rfl

/-- The times from the start, or before the end, or both if it does not wrap. -/
theorem inWindow_iff {time : NaiveTime} : p.inWindow time = true ↔
    (p.endLocal.micros < p.startLocal.micros ∧
      (p.startLocal.micros ≤ time.micros ∨ time.micros < p.endLocal.micros)) ∨
    p.startLocal.micros ≤ time.micros ∧ time.micros < p.endLocal.micros := by
  unfold QuietHoursPolicy.inWindow QuietHoursPolicy.wraps
  by_cases hwraps : p.endLocal.micros < p.startLocal.micros
  · rw [if_pos (decide_eq_true hwraps), Bool.or_eq_true, decide_eq_true_eq, decide_eq_true_eq]
    omega
  · rw [if_neg (by simpa using hwraps), Bool.and_eq_true, decide_eq_true_eq, decide_eq_true_eq]
    omega

/-- The window of a local time inside it ends the next time that the end is due. -/
theorem isNext_windowEnd_iff {l : Int} (h : p.inWindow (timeOf l) = true) :
    IsNext p.endLocal l e ↔ e = p.windowEnd l := by
  have hin := inWindow_iff.1 h
  have hl : (timeOf l).micros = l % day := rfl
  have hend := p.endLocal.nonneg
  have hend' := p.endLocal.lt_day
  unfold QuietHoursPolicy.windowEnd QuietHoursPolicy.wraps
  dsimp only
  constructor
  · rintro ⟨hafter, hwithin, htime⟩
    have htime : e % day = p.endLocal.micros := congrArg NaiveTime.micros htime
    split
    all_goals
      next hlate =>
        rw [Bool.and_eq_true, decide_eq_true_eq, decide_eq_true_eq] at hlate
        rw [day_eq] at *
        omega
  · rintro rfl
    split
    all_goals
      next hlate =>
        rw [Bool.and_eq_true, decide_eq_true_eq, decide_eq_true_eq] at hlate
        refine ⟨?_, ?_, NaiveTime.ext ?_⟩
        all_goals
          simp only [timeOf, day_eq] at *
          omega

theorem firstShown_zero : FirstShown z e 0 u ↔ z.earliest e = some u := by
  have hzero : e + (0 : Nat) * minute = e := by omega
  constructor
  · rintro ⟨-, hshown, hfirst⟩
    rw [hzero] at hshown hfirst
    exact Zone.earliest_eq_some hshown hfirst
  · intro h
    refine ⟨nofun, ?_, fun v hv => ?_⟩ <;> rw [hzero]
    · exact Zone.wall_of_earliest h
    · exact fun hwall => absurd (Zone.le_of_earliest h hwall) (Int.not_le.2 hv)

/-- One minute of the gap at a time. -/
theorem firstShown_succ {k : Nat} :
    FirstShown z e (k + 1) u ↔ z.earliest e = none ∧ FirstShown z (e + minute) k u := by
  have hshift (j : Nat) : e + minute + j * minute = e + (j + 1 : Nat) * minute := by
    rw [minute_eq]
    omega
  constructor
  · rintro ⟨hskipped, hshown, hfirst⟩
    refine ⟨Zone.earliest_eq_none fun v => ?_, fun j hj v => ?_, ?_, fun v hv => ?_⟩
    · simpa using hskipped 0 (succ_pos k) v
    all_goals rw [hshift]
    · exact hskipped (j + 1) (succ_lt_succ hj) v
    · exact hshown
    · exact hfirst v hv
  · rintro ⟨hnone, hskipped, hshown, hfirst⟩
    refine ⟨fun j hj v => ?_, hshift k ▸ hshown, hshift k ▸ hfirst⟩
    cases j with
    | zero =>
      rw [Int.ofNat_zero, Int.zero_mul, Int.add_zero]
      exact z.earliest_none hnone v
    | succ j =>
      rw [← hshift]
      exact hskipped j (lt_of_succ_lt_succ hj) v

/-- The loop ends at the first candidate that the clock shows. -/
theorem roundForward_eq_some_iff {candidate : Int} {left : Nat} :
    roundForward z candidate left = some u ↔ ∃ k ≤ left, FirstShown z candidate k u := by
  induction left generalizing candidate with
  | zero =>
    rw [roundForward]
    simp only [le_zero_eq, exists_eq_left, firstShown_zero]
    cases z.earliest candidate <;> simp
  | succ left ih =>
    rw [roundForward]
    cases hearliest : z.earliest candidate with
    | some v =>
      constructor
      · rintro h
        exact ⟨0, zero_le _, firstShown_zero.2 (hearliest.trans h)⟩
      · rintro ⟨k, -, h⟩
        cases k with
        | zero => exact hearliest.symm.trans (firstShown_zero.1 h)
        | succ k => cases hearliest.symm.trans (firstShown_succ.1 h).1
    | none =>
      dsimp only
      rw [ih]
      constructor
      · rintro ⟨k, hk, h⟩
        exact ⟨k + 1, succ_le_succ hk, firstShown_succ.2 ⟨hearliest, h⟩⟩
      · rintro ⟨k, hk, h⟩
        cases k with
        | zero => cases hearliest.symm.trans (firstShown_zero.1 h)
        | succ k => exact ⟨k, le_of_succ_le_succ hk, (firstShown_succ.1 h).2⟩

theorem FirstOutside.unique {now g : Int} (h : FirstOutside z p now f)
    (h' : FirstOutside z p now g) : f = g := by
  rcases Int.lt_trichotomy f g with hlt | heq | hlt
  · exact absurd (h'.inside f h.after hlt) h.outside
  · exact heq
  · exact absurd (h.inside g h'.after hlt) h'.outside

end

section
variable {fromStr : String → Option Zone} {customerTz tenantDefaultTz : String} {z : Zone}
variable {p : QuietHoursPolicy} {now : Int} {jitter : Jitter}

theorem resolveReschedule_of_zone (hz : resolveTz fromStr customerTz tenantDefaultTz = some z) :
    resolveReschedule fromStr now customerTz tenantDefaultTz p jitter =
      if p.inWindow (timeOf (z.wall now)) then
        (resolveLocal z (p.windowEnd (z.wall now))).map (· + jitter.micros)
      else none := by
  rw [resolveReschedule, hz]
  rfl

theorem jitter_le (jitter : Jitter) : 0 ≤ jitter.micros ∧ jitter.micros ≤ 30 * minute := by
  have hlt : jitter.val < 30 * 60 * 1000 + 1 := jitter.isLt
  rw [Jitter.micros, minute_eq]
  omega

end

/-- In every zone, at every instant and for every policy, whatever the jitter: nothing is deferred
iff the local time is outside the window, and what is deferred is deferred to after now, and to
between the first instant outside the window and 31 minutes after it; just if inside the window the
clock first shows its next end, or the first of the 240 minutes after that end that it ever shows,
at that instant or in the minute after it. -/
theorem quiet_hours_defer {fromStr : String → Option Zone} {customerTz tenantDefaultTz : String}
    {z : Zone} (hz : resolveTz fromStr customerTz tenantDefaultTz = some z)
    (p : QuietHoursPolicy) (now : Int) :
    (∀ jitter, (resolveReschedule fromStr now customerTz tenantDefaultTz p jitter = none ↔
        ¬ Quiet z p now) ∧
      ∀ t : Int, resolveReschedule fromStr now customerTz tenantDefaultTz p jitter = some t →
        now < t ∧ ∃ f, FirstOutside z p now f ∧ f ≤ t ∧ t ≤ f + 31 * minute) ↔
    (Quiet z p now → ∃ f e k u, FirstOutside z p now f ∧ IsNext p.endLocal (z.wall now) e ∧
      k ≤ maxGapSearch ∧ FirstShown z e k u ∧ f ≤ u ∧ u ≤ f + minute) := by
  simp only [resolveReschedule_of_zone hz]
  by_cases hquiet : Quiet z p now
  · simp only [show p.inWindow (timeOf (z.wall now)) = true from hquiet, if_true]
    constructor
    · intro h _
      -- the least jitter and the greatest one
      cases hu : resolveLocal z (p.windowEnd (z.wall now)) with
      | none => exact absurd hquiet ((h 0).1.1 (by rw [hu]; rfl))
      | some u =>
        obtain ⟨k, hk, hshown⟩ := roundForward_eq_some_iff.1 hu
        obtain ⟨-, f, hf, hle, -⟩ := (h 0).2 _ (by rw [hu]; rfl)
        obtain ⟨-, g, hg, -, hge⟩ := (h (Fin.last _)).2 _ (by rw [hu]; rfl)
        cases hf.unique hg
        refine ⟨f, _, k, u, hf, (isNext_windowEnd_iff hquiet).2 rfl, hk, hshown, ?_, ?_⟩
        · simpa [Jitter.micros] using hle
        · have hlast : Jitter.micros (Fin.last jitterMaxMs) = 30 * minute := rfl
          simp only [hlast, minute_eq] at hge ⊢
          omega
    · intro h jitter
      obtain ⟨f, e, k, u, hf, hnext, hk, hshown, hle, hge⟩ := h hquiet
      obtain ⟨hpos, hmax⟩ := jitter_le jitter
      cases (isNext_windowEnd_iff hquiet).1 hnext
      rw [show resolveLocal z _ = some u from roundForward_eq_some_iff.2 ⟨k, hk, hshown⟩]
      refine ⟨⟨fun h => (by cases h), fun h => absurd hquiet h⟩, fun t ht => ?_⟩
      obtain rfl : u + jitter.micros = t := Option.some.inj ht
      have hafter := hf.after
      exact ⟨by omega, f, hf, by omega, by omega⟩
  · have hout : p.inWindow (timeOf (z.wall now)) = false := Bool.eq_false_iff.2 hquiet
    simp [hout, hquiet]

/-! ### Clocks that are changed once -/

/-- A clock that is put forward from two to three o'clock. -/
def springForward : Zone := .ofTransitions 0 [(2 * hour, hour)]

/-- A clock that is put back from two to one o'clock. -/
def fallBack : Zone := .ofTransitions hour [(hour, 0)]

/-- A window, with its ends in minutes. -/
def QuietHoursPolicy.ofMinutes (s e : Fin (24 * 60)) : QuietHoursPolicy where
  startLocal := ⟨s.val * minute, by rw [minute_eq]; omega, by rw [minute_eq, day_eq]; omega⟩
  endLocal := ⟨e.val * minute, by rw [minute_eq]; omega, by rw [minute_eq, day_eq]; omega⟩

section
variable {z : Zone} {o o' t u g : Int}

theorem gapsAtMost_ofTransitions (hg : 0 ≤ g) (h : o' ≤ o + g) :
    (Zone.ofTransitions o [(t, o')]).GapsAtMost g := by
  intro u
  have hwall (v : Int) :
      (Zone.ofTransitions o [(t, o')]).wall v = v + if v < t then o else o' := rfl
  rw [hwall, hwall]
  split <;> split <;> omega

theorem wall_springForward (u : Int) :
    springForward.wall u = if u < 7200000000 then u else u + 3600000000 := by
  have hwall : springForward.wall u = u + if u < 7200000000 then 0 else 3600000000 := rfl
  rw [hwall]
  split <;> omega

theorem wall_fallBack (u : Int) :
    fallBack.wall u = if u < 3600000000 then u + 3600000000 else u := by
  have hwall : fallBack.wall u = u + if u < 3600000000 then 3600000000 else 0 := rfl
  rw [hwall]
  split <;> omega

theorem quiet_ofMinutes {s e : Fin (24 * 60)} : Quiet z (.ofMinutes s e) u ↔
    (e < s ∧ (s.val * 60000000 ≤ z.wall u % 86400000000 ∨
      z.wall u % 86400000000 < e.val * 60000000)) ∨
    s.val * 60000000 ≤ z.wall u % 86400000000 ∧ z.wall u % 86400000000 < e.val * 60000000 := by
  have hiff := @inWindow_iff (.ofMinutes s e) (timeOf (z.wall u))
  simp only [QuietHoursPolicy.ofMinutes, timeOf, minute_eq, day_eq] at hiff
  refine hiff.trans ?_
  rw [Fin.lt_def]
  omega

end

/-- The end of the window is skipped: the send is deferred to the instant of the change. -/
theorem quiet_hours_defer_springForward :
    resolveReschedule (fun _ => some springForward) hour "" "" (.ofMinutes 0 150) 0 =
      some (2 * hour) ∧
    ∃ f, FirstOutside springForward (.ofMinutes 0 150) hour f ∧ f ≤ 2 * hour := by
  have hfirst : FirstOutside springForward (.ofMinutes 0 150) hour (7200000000) := by
    refine ⟨by decide, by decide, fun u hlow hhigh => quiet_ofMinutes.2 (.inr ?_)⟩
    have hlow : 3600000000 < u := hlow
    rw [wall_springForward, if_pos hhigh]
    show 0 ≤ u % 86400000000 ∧ u % 86400000000 < 9000000000
    omega
  have hshown : FirstShown springForward 9000000000 30 7200000000 := by
    refine ⟨fun j hj v => ?_, by decide, fun v hv => ?_⟩ <;>
      rw [wall_springForward, minute_eq] <;> split <;> omega
  have heq : resolveReschedule (fun _ => some springForward) hour "" "" (.ofMinutes 0 150) 0 =
      some (2 * hour) := by decide +kernel
  obtain ⟨-, f, hf, hle, -⟩ := ((@quiet_hours_defer (fun _ => some springForward) "" "" _ rfl
    (.ofMinutes 0 150) hour).2 (fun _ => ⟨_, _, _, _, hfirst, ⟨by decide, by decide, rfl⟩,
      by decide, hshown, by decide, by decide⟩) 0).2 _ heq
  exact ⟨heq, f, hf, hle⟩

/-- The end of the window was shown before the clock was put back, and the send is deferred to the
past. The clock is put back to before the window, and the send is deferred to hours after that. The
clock skips the end and the time up to the next window, and the send is deferred to an instant
inside it. -/
theorem quiet_hours_missed :
    (fallBack.GapsAtMost (4 * hour) ∧ springForward.GapsAtMost (4 * hour)) ∧
    (∃ now t : Int, Quiet fallBack (.ofMinutes 1320 90) now ∧
      resolveReschedule (fun _ => some fallBack) now "" "" (.ofMinutes 1320 90) 0 = some t ∧
      t ≤ now) ∧
    (∃ now t f : Int, Quiet fallBack (.ofMinutes 75 360) now ∧
      resolveReschedule (fun _ => some fallBack) now "" "" (.ofMinutes 75 360) 0 = some t ∧
      FirstOutside fallBack (.ofMinutes 75 360) now f ∧ f + 31 * minute < t) ∧
    ∃ now t : Int, Quiet springForward (.ofMinutes 180 150) now ∧
      resolveReschedule (fun _ => some springForward) now "" "" (.ofMinutes 180 150) 0 = some t ∧
      ∀ u, now < u → u ≤ t → Quiet springForward (.ofMinutes 180 150) u := by
  refine ⟨⟨gapsAtMost_ofTransitions (by decide) (by decide),
    gapsAtMost_ofTransitions (by decide) (by decide)⟩,
    ⟨hour + 10 * minute, 30 * minute, by decide, by decide +kernel, by decide⟩,
    ⟨30 * minute, 6 * hour, 3600000000, by decide, by decide +kernel,
      ⟨by decide, by decide, fun u hlow hhigh => quiet_ofMinutes.2 (.inr ?_)⟩, by decide⟩,
    ⟨hour, 7200000000, by decide, by decide +kernel,
      fun u hlow hhigh => quiet_ofMinutes.2 (.inl ⟨by decide, ?_⟩)⟩⟩
  · have hlow : 1800000000 < u := hlow
    rw [wall_fallBack, if_pos hhigh]
    show 4500000000 ≤ (u + 3600000000) % 86400000000 ∧ (u + 3600000000) % 86400000000 < 21600000000
    omega
  · have hlow : 3600000000 < u := hlow
    show 10800000000 ≤ springForward.wall u % 86400000000 ∨
      springForward.wall u % 86400000000 < 9000000000
    rw [wall_springForward]
    split <;> omega

end Messgr.QuietHours
