import Messgr.Lib.Run
import Messgr.Quota.Tracker

/-!
# A hard quota is not exceeded

Channel loops and drains call one tracker, each with the time it read before, so the times of
consecutive calls go back and forth around the end of a window. A call that returns to a window that
the counter has left finds it at zero, and the limit of the window is exceeded (`quota_exceeded`).
As long as no call of a key does, no window exceeds its limit (`quota_not_exceeded`). The invariant
is `Within`: no window has more sends than the limit, and the counter's own window has no more than
the counter says.
-/

namespace Messgr.Quota

open List

/-- A call that was made, with what it decided. -/
structure Entry where
  key : Key
  now : Time
  decision : QuotaDecision
deriving DecidableEq

/-- The call may send. -/
def Entry.sends (e : Entry) : Bool :=
  match e.decision with
  | .defer _ => false
  | _ => true

/-- A tracker and the calls made of it. -/
structure Metered where
  tracker : Tracker
  log : List Entry

/-- A call. -/
def Metered.step (m : Metered) (call : Key × Time) : Option Metered :=
  let r := checkAndRecord m.tracker call.1 call.2
  some ⟨r.2, m.log ++ [⟨call.1, call.2, r.1⟩]⟩

/-- How many calls of a key in the window `ws` may send, for the windows of `f`. -/
def sentIn (key : Key) (f : Time → Time) (ws : Time) (log : List Entry) : Nat :=
  log.countP fun e => e.key = key && f e.now = ws && e.sends

/-- The counter is in the window of a call, or no call of the key was in it. -/
def Counter.fits (c : Counter) (key : Key) (f : Time → Time) (now : Time)
    (log : List Entry) : Bool :=
  c.windowStart = some (f now) || log.all fun e => e.key ≠ key || f e.now ≠ f now

/-- The condition: a call of the key is in the current minute and in the current day of its
counters, or in ones in which no call of the key was before. -/
def returnsToNone (key : Key) (m : Metered) (call : Key × Time) : Bool :=
  call.1 ≠ key ||
    ((m.tracker.counters key).minute.fits key minuteWindowStart call.2 m.log &&
      (m.tracker.counters key).day.fits key (dayWindowStart m.tracker.zone) call.2 m.log)

/-! ## One counter -/

/-- No window has more sends than the limit, and the counter's own no more than it says. -/
structure Within (key : Key) (f : Time → Time) (limit : Option Int) (c : Counter)
    (log : List Entry) : Prop where
  bounded : ∀ l ws, limit = some l → sentIn key f ws log ≤ l.toNat
  counted : ∀ ws, c.windowStart = some ws → sentIn key f ws log ≤ c.sent

section
variable {key : Key} {f : Time → Time} {limit : Option Int} {c : Counter}
  {log : List Entry} {e : Entry} {ws : Time}

theorem sentIn_append : sentIn key f ws (log ++ [e]) =
    sentIn key f ws log + if e.key = key ∧ f e.now = ws ∧ e.sends = true then 1 else 0 := by
  simp only [sentIn, countP_append, countP_singleton, Bool.and_eq_true,
    decide_eq_true_eq, and_assoc]

/-- A call that does not send, or is of another key or window, adds nothing. -/
theorem sentIn_append_of_not (h : ¬ (e.key = key ∧ f e.now = ws ∧ e.sends = true)) :
    sentIn key f ws (log ++ [e]) = sentIn key f ws log := by
  rw [sentIn_append, if_neg h, Nat.add_zero]

theorem sentIn_eq_zero (h : ∀ e ∈ log, e.key = key → f e.now ≠ ws) : sentIn key f ws log = 0 := by
  refine countP_eq_zero.2 fun e he => ?_
  simp only [Bool.and_eq_true, decide_eq_true_eq, not_and]
  exact fun hin => absurd hin.2 (h e he hin.1)

section
variable (h : Within key f limit c log)
include h

/-- Rolling the counter to the window of a call that fits. -/
theorem Within.roll {now : Time}
    (hfit : c.fits key f now log = true) : Within key f limit (c.roll (f now)) log := by
  refine ⟨h.bounded, fun ws hws => ?_⟩
  unfold Counter.roll at hws ⊢
  split
  · next hne =>
    -- the window is new, so nobody was in it
    rw [if_pos hne] at hws
    cases hws
    simp only [Counter.fits, hne, decide_false, Bool.false_or, all_eq_true, Bool.or_eq_true,
      decide_eq_true_eq] at hfit
    rw [sentIn_eq_zero fun e he hk => (hfit e he).resolve_left (not_not_intro hk)]
  · next heq =>
    rw [if_neg heq] at hws
    exact h.counted ws hws

/-- A call that is not one of the key's sends. -/
theorem Within.skip (he : ¬ (e.key = key ∧ e.sends = true)) :
    Within key f limit c (log ++ [e]) := by
  have hsame : ∀ ws, sentIn key f ws (log ++ [e]) = sentIn key f ws log := fun ws =>
    sentIn_append_of_not fun ⟨hk, _, hs⟩ => he ⟨hk, hs⟩
  refine ⟨fun l ws hl => ?_, fun ws hws => ?_⟩
  · rw [hsame]
    exact h.bounded l ws hl
  · rw [hsame]
    exact h.counted ws hws

/-- Counting one that is blocked. -/
theorem Within.block : Within key f limit c.block log :=
  ⟨h.bounded, h.counted⟩

/-- A send below the limit, in the counter's window. -/
theorem Within.send (hws : c.windowStart = some (f e.now))
    (hb : c.breaches limit = false) : Within key f limit c.send (log ++ [e]) := by
  have hone : ∀ ws, sentIn key f ws (log ++ [e]) ≤ sentIn key f ws log + 1 := fun ws => by
    rw [sentIn_append]
    split <;> omega
  have hcount := h.counted _ hws
  refine ⟨fun l ws hl => ?_, fun ws hws' => ?_⟩
  · by_cases hf : f e.now = ws
    · subst hf
      subst hl
      have hlt : (c.sent : Int) < l := by
        simpa [Counter.breaches] using hb
      have := hone (f e.now)
      omega
    · rw [sentIn_append_of_not fun hsend => hf hsend.2.1]
      exact h.bounded l ws hl
  · cases hws.symm.trans hws'
    exact (hone _).trans (Nat.succ_le_succ hcount)

end

end

/-! ## The tracker -/

/-- Both counters of a key are within the limits of its quota. -/
structure Metered.Within (key : Key) (q : EffectiveQuota) (z : Zone) (m : Metered) : Prop where
  zone : m.tracker.zone = z
  config : m.tracker.config key = some q
  minute : Quota.Within key minuteWindowStart q.perMinute (m.tracker.counters key).minute m.log
  day : Quota.Within key (dayWindowStart z) q.perDay (m.tracker.counters key).day m.log

section
variable {key : Key} {q : EffectiveQuota} {z : Zone} {m m' : Metered} {call : Key × Time}

/-- A call of the key itself, from its counters rolled to the windows of the call. -/
theorem Metered.Within.own {now : Time} {d : QuotaDecision} {t : Tracker}
    (h : m.Within key q z) (hauth : key.msgClass ≠ auth) (hhard : q.enforcement = hard)
    (hfit : returnsToNone key m (key, now) = true) (hc : CheckStep m.tracker key now d t) :
    Metered.Within key q z ⟨t, m.log ++ [⟨key, now, d⟩]⟩ := by
  simp only [returnsToNone, ne_eq, not_true_eq_false, decide_false, Bool.false_or,
    Bool.and_eq_true, h.zone] at hfit
  have hzone := hc.zone.trans h.zone
  have hconfig : t.config key = some q := by rw [hc.config]; exact h.config
  have hminute := h.minute.roll hfit.1
  have hday := h.day.roll hfit.2
  have hrolled : m.tracker.rolled key now =
      ⟨(m.tracker.counters key).minute.roll (minuteWindowStart now),
        (m.tracker.counters key).day.roll (dayWindowStart z now)⟩ := by
    rw [Tracker.rolled, h.zone]
  cases hc with
  | exempt hfree =>
    rcases hfree with hfree | hfree
    · exact absurd hfree hauth
    · rw [h.config] at hfree
      cases hfree
  | within hq hd hm =>
    cases h.config.symm.trans hq
    rw [hrolled] at hd hm
    refine ⟨hzone, hconfig, ?_, ?_⟩
    · rw [Tracker.recordAdmit, counters_withCounters_self, hrolled]
      exact hminute.send (roll_windowStart _ _) hm
    · rw [Tracker.recordAdmit, counters_withCounters_self, hrolled]
      exact hday.send (roll_windowStart _ _) hd
  | soft hq hsoft =>
    cases h.config.symm.trans hq
    exact absurd hhard hsoft
  | deferred _ _ _ _ hcounters =>
    have hno : ∀ u, ¬ ((⟨key, now, .defer u⟩ : Entry).key = key ∧
        (⟨key, now, .defer u⟩ : Entry).sends = true) := fun u hs => by cases hs.2
    refine ⟨hzone, hconfig, ?_, ?_⟩
    · rw [counters_withCounters_self]
      rcases hcounters with rfl | rfl
      · rw [hrolled]
        exact hminute.skip (hno _)
      · rw [hrolled]
        exact hminute.block.skip (hno _)
    · rw [counters_withCounters_self]
      rcases hcounters with rfl | rfl
      · rw [hrolled]
        exact hday.block.skip (hno _)
      · rw [hrolled]
        exact hday.skip (hno _)

/-- Every call that meets the condition keeps the limit. -/
theorem Metered.Within.step (hauth : key.msgClass ≠ auth) (hhard : q.enforcement = hard)
    (hfit : returnsToNone key m call = true) (hs : m.step call = some m')
    (h : m.Within key q z) : m'.Within key q z := by
  obtain ⟨key', now⟩ := call
  cases hs
  by_cases hk : key' = key
  · subst hk
    exact h.own hauth hhard hfit checkAndRecord_cases
  · have hc : CheckStep m.tracker key' now _ _ := checkAndRecord_cases
    have hcounters := hc.counters_of_ne (.symm hk)
    refine ⟨hc.zone.trans h.zone, ?_, ?_, ?_⟩
    · rw [hc.config]
      exact h.config
    · rw [hcounters]
      exact h.minute.skip fun hs => hk hs.1
    · rw [hcounters]
      exact h.day.skip fun hs => hk hs.1

end

/-- From any counters, in every sequence of calls in which those of a key with a hard quota do not
return to a window that they have left, whatever the other calls are: no minute has more sends of
the key than `per_minute`, and no day more than `per_day`. -/
theorem quota_not_exceeded {t : Tracker} {key : Key} {q : EffectiveQuota}
    (hconfig : t.config key = some q) (hhard : q.enforcement = hard)
    (hauth : key.msgClass ≠ auth) {calls : List (Key × Time)} {m : Metered}
    (h : Run.Steps Metered.step (returnsToNone key · ·) ⟨t, []⟩ calls m) (ws : Time) :
    (∀ limit, q.perMinute = some limit → sentIn key minuteWindowStart ws m.log ≤ limit.toNat) ∧
      ∀ limit, q.perDay = some limit →
        sentIn key (dayWindowStart t.zone) ws m.log ≤ limit.toNat := by
  have hstart : Metered.Within key q t.zone ⟨t, []⟩ :=
    ⟨rfl, hconfig, ⟨fun _ _ _ => Nat.zero_le _, fun _ _ => Nat.zero_le _⟩,
      ⟨fun _ _ _ => Nat.zero_le _, fun _ _ => Nat.zero_le _⟩⟩
  have hend : m.Within key q t.zone :=
    h.inv (fun _ _ _ hC hs hi => hi.step hauth hhard hC hs) hstart
  exact ⟨fun limit hl => hend.minute.bounded limit ws hl,
    fun limit hl => hend.day.bounded limit ws hl⟩

/-! ### Runs on fixed inputs -/

/-- What the quota of a producer's marketing is for. -/
def Key.sample : Key := ⟨⟨1⟩, "sms", "marketing"⟩

/-- One a minute and three a day, with hard enforcement. -/
def EffectiveQuota.sample : EffectiveQuota := ⟨some 1, some 3, hard⟩

/-- A tracker with the quota. -/
def Tracker.sample : Tracker :=
  { Tracker.new utc with config := fun key => if key = .sample then some .sample else none }

/-- Five calls in order. -/
def inOrder : List (Key × Time) :=
  [(.sample, 1), (.sample, 2), (.sample, minute), (.sample, 2 * minute), (.sample, 3 * minute)]

/-- The second call of the first minute and the fourth send of the day are deferred. -/
theorem quota_not_exceeded_inOrder :
    ∃ m, Run.Steps Metered.step (returnsToNone .sample · ·) ⟨.sample, []⟩ inOrder m ∧
      m.log.map Entry.sends = [true, false, true, true, false] ∧
      sentIn .sample (dayWindowStart utc) 0 m.log ≤ 3 := by
  obtain ⟨m, hm, hp⟩ := Run.Steps.exists_of_checked Metered.step (returnsToNone .sample)
    ⟨.sample, []⟩ inOrder (fun m => m.log.map Entry.sends = [true, false, true, true, false])
    (by decide +kernel)
  exact ⟨m, hm, of_decide_eq_true hp,
    (quota_not_exceeded (q := .sample) rfl rfl (by decide) hm 0).2 3 rfl⟩

/-- The call of a minute that was left is counted from zero: the minute has two sends, the limit is
one. -/
theorem quota_exceeded :
    ∃ m, Run.Steps Metered.step Run.Any ⟨.sample, []⟩
        [(.sample, minute - 1), (.sample, minute), (.sample, minute - 1)] m ∧
      Tracker.sample.config .sample = some .sample ∧
      sentIn .sample minuteWindowStart 0 m.log = 2 := by
  obtain ⟨m, hm, hp⟩ := Run.Steps.exists_of_exec Metered.step ⟨.sample, []⟩
    [(.sample, minute - 1), (.sample, minute), (.sample, minute - 1)]
    (fun m => sentIn .sample minuteWindowStart 0 m.log = 2) (by decide +kernel)
  exact ⟨m, hm, rfl, of_decide_eq_true hp⟩

end Messgr.Quota
