import Messgr.Dispatcher.ChannelLoops
import Messgr.Dispatcher.Switches

/-!
# The hand-over of released switches

A switch on `hold` that is released leaves the active set when a refresh swaps it out, and enters
`draining` when `on_delta` reacts. A channel loop reads the two one after the other. The exclusion
it builds leaves out what the switch matches until its drain ends, if a loop that reads `draining`
between the swap and the reaction has the switch in its snapshot (`release_handOver`).
-/

namespace Messgr

open Option Bool World

/-- The switches that a host's refresh took out of the active set and has not handled yet. -/
def World.releasing (w : World) (p : Nat) : List KillSwitch :=
  (w.hosts[p]?.map (·.refresh.released)).getD []

/-- A condition: a channel loop that reads `draining` while switches on `hold` are on the
way there has them in the snapshot of the active set it took before. -/
def handOverSeen (w : World) : Act → Bool
  | .task t _ => w.tasks[t]?.all fun task =>
    match task.pc with
    | .snapshot _ switches =>
      (w.releasing task.owner).all fun s => s.onQueued ≠ .hold || s ∈ switches
    | _ => true
  | _ => true

/-- A host has seen a switch that is not in its active set. -/
def SeenAndLeft (p : Nat) (s : KillSwitch) (w : World) : Prop :=
  ∃ host, w.hosts[p]? = some host ∧ s ∈ (w.observer p host).seen ∧ s ∉ (w.observer p host).cache

/-- A seen switch on `hold` that has left the active set and was not drained is on the way to
`draining` or there. -/
theorem Switching.releasing_or_draining {w : World} {p : Nat} {s : KillSwitch} {host : Host}
    {d : Dispatcher} (hw : Switching w) (h : SeenAndLeft p s w)
    (hh : w.hosts[p]? = some host) (hd : host.dispatcher = some d)
    (hhold : s.onQueued = .hold) (hdrained : .drained p s.id ∉ w.log) :
    s ∈ w.releasing p ∨ s ∈ d.draining := by
  obtain ⟨host', hh', hseen, hleft⟩ := h
  cases hh.symm.trans hh'
  rcases (hw.hosts p host hh).inv.kept s hseen ⟨hhold, by rw [hd]; rfl⟩ with h | h | h | h
  · exact absurd h hdrained
  · exact absurd h hleft
  · refine .inl ?_
    rw [World.releasing, hh]
    exact h
  · obtain ⟨table, ht, hs⟩ := h
    rw [hd] at ht
    cases ht
    exact .inr hs

section
variable [UuidCrate] {w w' : World} {C : World → Act → Prop} {as : List Act} {t p : Nat}
  {s : KillSwitch} {task : Task}

/-- A switch does not come back to an active set. -/
theorem SeenAndLeft.steps (h : SeenAndLeft p s w) (hw : Switching w)
    (hs : Run.Steps World.step C w as w') : SeenAndLeft p s w' := by
  refine hs.inv_of (fun _ _ _ _ hs hw => hw.step hs) (fun w a w' _ hs hw h => ?_) hw h
  obtain ⟨host, hh, hx⟩ := h
  have ho := hw.hosts p host hh
  obtain ⟨host', hh', hobs⟩ := ho.step hw.tables hh (step_cases hs)
  exact ⟨host', hh', ho.inv.seen_and_left hobs.step hx⟩

/-- A task that makes no step stays where it is, or ends with its process. -/
theorem task_of_steps (hs : Run.Steps World.step C w as w') (hno : ∀ env, .task t env ∉ as)
    (ht : w.tasks[t]? = some task) :
    w'.tasks[t]? = some task ∨ w'.tasks[t]? = some { task with pc := .ended } := by
  induction hs generalizing task with
  | nil => exact .inl ht
  | @cons w w1 w' a as _ hstep _ ih =>
    have hno' : ∀ env, .task t env ∉ as := fun env hm => hno env (List.mem_cons_of_mem _ hm)
    rcases task_of_step (step_cases hstep) ht with ht | ⟨-, ht⟩ | ⟨env, rfl, -⟩
    · exact ih hno' ht
    · exact .inr ((ih hno' ht).elim id id)
    · exact absurd List.mem_cons_self (hno env)

section
variable {env : Env} {channel : String} {leasedUntil : Time} {switches : List KillSwitch}

/-- The first read of `claim_exclusion`. -/
theorem snapshot_of_ready (ht : w.tasks[t]? = some task) (hk : task.kind = .channelLoop channel)
    (hpc : task.pc = .ready) (hs : w.step (.task t env) = some w') :
    ∃ host leasedUntil, w.hosts[task.owner]? = some host ∧
      w'.tasks[t]? = some { task with pc := .snapshot leasedUntil host.cache.activeSnapshot } := by
  obtain ⟨host, d, pc, alive, -, -, ht', hl⟩ :=
    loopStep_of_taskStep (taskStep_cases hs) ht hk
  rw [hpc] at hl
  cases hl with
  | read => exact ⟨host, _, (host?_eq_some.1 alive).1, ht'⟩

/-- The second read of `claim_exclusion`. -/
theorem claiming_of_snapshot (ht : w.tasks[t]? = some task) (hk : task.kind = .channelLoop channel)
    (hpc : task.pc = .snapshot leasedUntil switches) (hs : w.step (.task t env) = some w') :
    ∃ host d, w.hosts[task.owner]? = some host ∧ host.dispatcher = some d ∧
      w'.tasks[t]? = some ⟨task.owner, task.kind,
        .claiming leasedUntil (exclusionForChannel (switches ++ d.draining.rows) channel)⟩ := by
  obtain ⟨host, d, pc, alive, dispatcher, -, ht', hl⟩ :=
    loopStep_of_taskStep (taskStep_cases hs) ht hk
  rw [hpc] at hl
  cases hl with
  | built => exact ⟨host, d, (host?_eq_some.1 alive).1, dispatcher, ht'⟩

/-- A loop that has ended makes no step. -/
theorem step_of_ended (ht : w.tasks[t]? = some task) (hk : task.kind = .channelLoop channel)
    (hpc : task.pc = .ended) : w.step (.task t env) ≠ some w' := by
  intro hs
  obtain ⟨_, _, _, -, -, -, -, hl⟩ := loopStep_of_taskStep (taskStep_cases hs) ht hk
  rw [hpc] at hl
  cases hl

end

/-- As long as a loop that reads `draining` during a hand-over has the switch in its snapshot, the
exclusion of a channel loop whose reads fall between the moment its dispatcher has seen a switch on
`hold` engaged and the end of its drain leaves out every row that the switch matches. -/
theorem release_handOver {w0 w1 w2 w3 w4 : World} {bs : List Act} {env1 env2 : Env}
    {task4 : Task} {channel : String} {leasedUntil : Time} {e : ChannelExclusion}
    (h0 : w0.Initial) (hi : w0.SwitchesInOrder)
    (h1 : Run.Steps World.step (handOverSeen · ·) w0 as w1)
    (hseen : .seenEngaged task.owner s ∈ w1.log) (hhold : s.onQueued = .hold)
    (ht : w1.tasks[t]? = some task) (hk : task.kind = .channelLoop channel)
    (hpc : task.pc = .ready) (hread1 : w1.step (.task t env1) = some w2)
    (h2 : Run.Steps World.step (handOverSeen · ·) w2 bs w3) (hno : ∀ env, .task t env ∉ bs)
    (hcond : handOverSeen w3 (.task t env2) = true)
    (hread2 : w3.step (.task t env2) = some w4) (hdrained : .drained task.owner s.id ∉ w3.log)
    (ht4 : w4.tasks[t]? = some task4) (hpc4 : task4.pc = .claiming leasedUntil e) :
    e.Covers channel s := by
  have hw1 : Switching w1 := switching_of_steps (switching_initial h0 hi) h1
  obtain ⟨host1, lease, hh1, ht2⟩ := snapshot_of_ready ht hk hpc hread1
  have ht3 : w3.tasks[t]? =
      some { task with pc := .snapshot lease host1.cache.activeSnapshot } := by
    rcases task_of_steps h2 hno ht2 with ht3 | ht3
    · exact ht3
    · exact absurd hread2 (step_of_ended ht3 hk rfl)
  obtain ⟨host3, d, hh3, hd, ht4'⟩ := claiming_of_snapshot ht3 hk rfl hread2
  cases ht4'.symm.trans ht4
  cases hpc4
  refine covers_exclusionForChannel (List.mem_append.2 ?_)
  by_cases hcache : s ∈ host1.cache.switches
  · exact .inl hcache
  · -- the switch has left the active set before the first read, and is not back at the second
    have hw2 : Switching w2 := hw1.step hread1
    have hw3 : Switching w3 := switching_of_steps hw2 h2
    have hleft : SeenAndLeft task.owner s w3 :=
      SeenAndLeft.steps ⟨host1, hh1, hseen, hcache⟩ hw1
        (.cons trivial hread1 (h2.mono fun _ _ _ => trivial))
    rcases hw3.releasing_or_draining hleft hh3 hd hhold hdrained with hr | hr
    · refine .inl ?_
      simp only [handOverSeen, ht3, Option.all_some, List.all_eq_true, Bool.or_eq_true,
        decide_eq_true_eq] at hcond
      exact (hcond s hr).resolve_left (absurd hhold)
    · exact .inr hr

end

/-! ## Samples -/

/-- The two reads of a channel loop around a run `bs`, after a run `as` in which its dispatcher has
seen a switch, with a condition on every step. -/
structure TwoReads (c : World → Act → Bool) (s : KillSwitch) (as bs : List Act)
    (w1 w2 w3 w4 : World) (task task4 : Task) (leasedUntil : Time) (e : ChannelExclusion) :
    Prop where
  before : Run.Steps (@World.step .sample) (c · ·) .empty as w1
  seen : .seenEngaged task.owner s ∈ w1.log
  lookup : w1.tasks[0]? = some task
  kind : task.kind = .channelLoop "sms"
  pc : task.pc = .ready
  first : @World.step .sample w1 (.task 0 {}) = some w2
  between : Run.Steps (@World.step .sample) (c · ·) w2 bs w3
  cond : c w3 (.task 0 {}) = true
  second : @World.step .sample w3 (.task 0 {}) = some w4
  drained : .drained task.owner s.id ∉ w3.log
  lookup4 : w4.tasks[0]? = some task4
  pc4 : task4.pc = .claiming leasedUntil e

/-- What there is to check for such a run. -/
def twoReadsCheck (c : World → Act → Bool) (s : KillSwitch) (as bs : List Act)
    (q : ChannelExclusion → Bool) : Bool :=
  let step w a := if c w a then @World.step .sample w a else none
  (Run.exec step .empty as).any fun w1 => w1.tasks[0]?.any fun task =>
    Obs.seenEngaged task.owner s ∈ w1.log && task.kind = .channelLoop "sms" &&
    (task.pc matches .ready) &&
    (@World.step .sample w1 (.task 0 {})).any fun w2 => (Run.exec step w2 bs).any fun w3 =>
      c w3 (.task 0 {}) && Obs.drained task.owner s.id ∉ w3.log &&
      (@World.step .sample w3 (.task 0 {})).any fun w4 => w4.tasks[0]?.any fun task4 =>
        match task4.pc with
        | .claiming _ e => q e
        | _ => false

/-- What `twoReadsCheck` checks is such a run. -/
theorem exists_twoReads {c : World → Act → Bool} {s : KillSwitch} {as bs : List Act}
    {q : ChannelExclusion → Bool} (h : twoReadsCheck c s as bs q = true) :
    ∃ w1 w2 w3 w4 task task4 leasedUntil e,
      TwoReads c s as bs w1 w2 w3 w4 task task4 leasedUntil e ∧ q e = true := by
  obtain ⟨w1, h1, hp⟩ := Run.Steps.exists_of_checked _ c _ _ _ h
  obtain ⟨task, ht, hp⟩ := (any_eq_true _ _).1 hp
  obtain ⟨hp1, hp⟩ := and_eq_true_iff.1 hp
  obtain ⟨hp1, hpc⟩ := and_eq_true_iff.1 hp1
  obtain ⟨hseen, hk⟩ := and_eq_true_iff.1 hp1
  obtain ⟨w2, h2, hp⟩ := (any_eq_true _ _).1 hp
  obtain ⟨w3, h3, hp⟩ := Run.Steps.exists_of_checked _ c _ _ _ hp
  obtain ⟨hp3, hp⟩ := and_eq_true_iff.1 hp
  obtain ⟨hc, hdrained⟩ := and_eq_true_iff.1 hp3
  obtain ⟨w4, h4, hp⟩ := (any_eq_true _ _).1 hp
  obtain ⟨task4, ht4, hp⟩ := (any_eq_true _ _).1 hp
  split at hp
  · next leasedUntil e hpc4 =>
    refine ⟨w1, w2, w3, w4, task, task4, leasedUntil, e, ⟨h1, of_decide_eq_true hseen, ht,
      of_decide_eq_true hk, ?_, h2, h3, hc, h4, of_decide_eq_true hdrained, ht4, hpc4⟩, hp⟩
    split at hpc
    · assumption
    · cases hpc
  · cases hp

/-- A switch is seen engaged, released and swapped out, and is not in `draining` yet. -/
def swappedOut : List Act :=
  [Act.startDispatcher .sample] ++ Act.elect 0 ++ [Act.task 0 {}, .engage (.sample ⟨9⟩)] ++
    Act.refresh 0 ++
    [Act.release ⟨9⟩ "operator" 0, .readTenant 0 true, .readPlatform 0 true, .swap 0]

/-- The switch reaches `draining` between the two reads. -/
theorem release_handOver_swappedOut :
    ∃ w1 w2 w3 w4 task task4 leasedUntil e,
      TwoReads handOverSeen (.sample ⟨9⟩) swappedOut [.react 0] w1 w2 w3 w4 task task4
        leasedUntil e ∧
      @ChannelExclusion.Covers .sample e "sms" (.sample ⟨9⟩) := by
  have hcheck : twoReadsCheck handOverSeen (.sample ⟨9⟩) swappedOut [.react 0] fun _ => true := by
    decide
  obtain ⟨w1, w2, w3, w4, task, task4, leasedUntil, e, h, -⟩ := exists_twoReads hcheck
  exact ⟨w1, w2, w3, w4, task, task4, leasedUntil, e, h, @release_handOver .sample _ _ _ _ _ _ _ _ _
    _ _ _ _ _ _ _ World.initial_empty World.switchesInOrder_empty h.before h.seen rfl h.lookup
    h.kind h.pc h.first h.between (by simp) h.cond h.second h.drained h.lookup4 h.pc4⟩

/-- Without the condition a loop that reads both during the hand-over excludes nothing. -/
theorem release_gap_swappedOut :
    ¬ ∀ (w0 w1 w2 w3 w4 : World) (as bs : List Act) (t : Nat) (env1 env2 : Env) (task task4 : Task)
      (channel : String) (leasedUntil : Time) (e : ChannelExclusion) (s : KillSwitch),
      w0.Initial → w0.SwitchesInOrder → Run.Steps (@World.step .sample) Run.Any w0 as w1 →
      .seenEngaged task.owner s ∈ w1.log → s.onQueued = .hold →
      w1.tasks[t]? = some task → task.kind = .channelLoop channel → task.pc = .ready →
      @World.step .sample w1 (.task t env1) = some w2 →
      Run.Steps (@World.step .sample) Run.Any w2 bs w3 → (∀ env, .task t env ∉ bs) →
      @World.step .sample w3 (.task t env2) = some w4 → .drained task.owner s.id ∉ w3.log →
      w4.tasks[t]? = some task4 → task4.pc = .claiming leasedUntil e →
      @ChannelExclusion.Covers .sample e channel s := by
  intro h
  have hcheck : twoReadsCheck (fun _ _ => true) (.sample ⟨9⟩) swappedOut [] (· = .default) := by
    decide
  obtain ⟨w1, w2, w3, w4, task, task4, leasedUntil, e, hr, he⟩ := exists_twoReads hcheck
  have hcov := h _ w1 w2 w3 w4 _ _ 0 {} {} task task4 "sms" leasedUntil e (.sample ⟨9⟩)
    World.initial_empty World.switchesInOrder_empty (hr.before.mono fun _ _ _ => trivial)
    hr.seen rfl hr.lookup hr.kind hr.pc hr.first (hr.between.mono fun _ _ _ => trivial) (by simp)
    hr.second hr.drained hr.lookup4 hr.pc4
  -- the switch matches every row, and the exclusion leaves out none
  rw [of_decide_eq_true he] at hcov
  exact ChannelExclusion.not_excludes_default _ _
    (hcov ((NewComms.sample ⟨7⟩ "k").outboxRow 0) rfl rfl)

end Messgr
