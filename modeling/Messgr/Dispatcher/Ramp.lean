import Messgr.Dispatcher.Drains
import Messgr.Lib.Pace

/-!
# The pace of a release

A drain leases at most `release_rate` rows at a time and sleeps for a second before it claims again,
after a batch as after a claim that failed. `Ramp` is the world with the time, of which one drain is
watched.

`release_ramp` bounds what the drain leases in any interval, whatever fails, also for claims of
which the drain never learns that they took effect; and says what it never leases and never hands
over. The invariant is `Paced`, with what holds at each place the drain can stand at (`Ramp.At`).
-/

namespace Messgr

open List Option Table Bool Nat World

/-- The pause of a drain after a batch. -/
def second : Time := 1000 * millisecond

/-- Source: `src/dispatcher/drain.rs`, `RETRY_DELAY`. -/
def retryDelay : Time := second

/-! ## The system -/

/-- The rows that have a lease after a step and had none before. -/
def World.newlyLeased (w w' : World) : List OutboxRow :=
  w.db.outbox.rows.filter fun r => r.leasedUntil.isNone &&
    w'.db.outbox.rows.any fun r' => r'.commsRequestId = r.commsRequestId && r'.leasedUntil.isSome

/-- The switches that a process has engaged. -/
def World.snapshot (w : World) (p : Nat) : List KillSwitch :=
  ((w.host? p).map (·.cache.activeSnapshot)).getD []

/-- The rows that a claim leased, when, and the engaged switches it was to heed. -/
structure Batch where
  time : Time
  rows : List OutboxRow
  engaged : List KillSwitch

/-- A row that was handed to the provider, and the clock at the claim of its batch. -/
structure HandedOver where
  row : OutboxRow
  clock : Time

/-- The world at a time, with one drain watched. -/
structure Ramp where
  world : World
  now : Time
  wakes : Time
  engaged : List KillSwitch
  clock : Time
  batches : List Batch
  calls : List HandedOver

/-- The drain is not there yet. -/
def Ramp.start (w : World) (now : Time) : Ramp := ⟨w, now, now, [], now, [], []⟩

/-- What is seen of the drain `t` when an act leads to `w'`: the switches read for its exclusion,
the rows leased, the row handed over, and how long it sleeps. -/
def Ramp.observe (t : Nat) (s : Ramp) (time : Time) (a : Act) (w' : World) : Ramp :=
  let s' : Ramp := { s with world := w', now := time }
  match a, s.world.tasks[t]? with
  | .task t' env, some ⟨p, .drain _ _, pc⟩ =>
    if t' = t then
      match pc with
      | .ready => { s' with engaged := s.world.snapshot p }
      | .claiming _ _ => { s' with
          wakes := if env.reply = .ok then s.wakes else time + retryDelay
          clock := env.clock
          batches := s.batches ++ [⟨time, s.world.newlyLeased w', s.engaged⟩] }
      | .working jobs =>
        match jobs.rows with
        | [] => { s' with wakes := time + second }
        | job :: _ =>
          if job.stage = .send then { s' with calls := s.calls ++ [⟨job.row, s.clock⟩] } else s'
      | _ => s'
    else s'
  | _, _ => s'

section
variable {t p : Nat} {s : Ramp} {time : Time} {a : Act} {env : Env} {w' : World}
  {channel : String} {k : KillSwitch}

/-- Nothing is seen of a step that is not one of the drain. -/
theorem Ramp.observe_of_ne (h : ∀ p channel k pc env, s.world.DrainAt t p channel k pc →
      a ≠ .task t env) : s.observe t time a w' = { s with world := w', now := time } := by
  unfold Ramp.observe
  split
  · next t' env p channel k pc ht =>
    rw [if_neg]
    rintro rfl
    exact h p channel k pc env ht rfl
  · rfl

theorem Ramp.observe_ready (ht : s.world.DrainAt t p channel k .ready) :
    s.observe t time (.task t env) w' =
      { s with world := w', now := time, engaged := s.world.snapshot p } := by
  simp [Ramp.observe, ht]

theorem Ramp.observe_claiming {leasedUntil : Time} {e : ChannelExclusion}
    (ht : s.world.DrainAt t p channel k (.claiming leasedUntil e)) :
    s.observe t time (.task t env) w' =
      { s with
        world := w'
        now := time
        wakes := if env.reply = .ok then s.wakes else time + retryDelay
        clock := env.clock
        batches := s.batches ++ [⟨time, s.world.newlyLeased w', s.engaged⟩] } := by
  simp [Ramp.observe, ht]

theorem Ramp.observe_batchDone {jobs : Jobs} (hnone : jobs.rows = [])
    (ht : s.world.DrainAt t p channel k (.working jobs)) :
    s.observe t time (.task t env) w' =
      { s with world := w', now := time, wakes := time + second } := by
  simp [Ramp.observe, ht, hnone]

theorem Ramp.observe_passed {jobs : Jobs} {job : Job} {rest : List Job}
    (head : jobs.rows = job :: rest) (ht : s.world.DrainAt t p channel k (.working jobs)) :
    s.observe t time (.task t env) w' =
      { s with
        world := w'
        now := time
        calls := if job.stage = .send then s.calls ++ [⟨job.row, s.clock⟩] else s.calls } := by
  simp only [Ramp.observe, ht, head, if_true]
  split <;> rfl

end

/-- The drain sleeps until it wakes. -/
def Ramp.awake (t : Nat) (s : Ramp) (time : Time) : Act → Bool
  | .task t' _ => t' ≠ t || s.wakes ≤ time
  | _ => true

/-- Performs one act at a time, if it can be performed then. -/
def Ramp.step [UuidCrate] (t : Nat) (s : Ramp) (e : Time × Act) : Option Ramp :=
  if s.now ≤ e.1 ∧ s.awake t e.1 e.2 = true then (s.world.step e.2).map (s.observe t e.1 e.2)
  else none

/-- The rows that the drain leased in an interval. -/
def Ramp.leased (s : Ramp) (start finish : Time) : List OutboxRow :=
  (s.batches.filter fun b => start ≤ b.time && b.time ≤ finish).flatMap (·.rows)

/-! ## What a claim leases -/

section
variable {w w' : World} {eligible : OutboxRow → Bool} {leasedUntil : Time} {ids : List Uuid}
  {rows : OutboxRows}

theorem newlyLeased_of_eq (h : w'.db.outbox = w.db.outbox) : w.newlyLeased w' = [] := by
  refine filter_eq_nil_iff.2 fun r hr hl => ?_
  simp only [and_eq_true, List.any_eq_true, decide_eq_true_eq] at hl
  obtain ⟨hfree, r', hr', hid, hlease⟩ := hl
  rw [h] at hr'
  rw [eq_of_key (t := w.db.outbox) hr' hr hid] at hlease
  rw [isNone_iff_eq_none.1 hfree] at hlease
  cases hlease

/-- The rows that a claim leases were picked, and eligible. -/
theorem mem_newlyLeased (hc : Claimed w.db eligible leasedUntil ids rows w'.db) {r : OutboxRow}
    (hr : r ∈ w.newlyLeased w') : r.commsRequestId ∈ ids ∧ eligible r = true := by
  obtain ⟨hr, hl⟩ := mem_filter.1 hr
  simp only [and_eq_true, List.any_eq_true, decide_eq_true_eq] at hl
  obtain ⟨hfree, r', hr', hid, hlease⟩ := hl
  rw [hc.db] at hr'
  rcases mem_lease.1 hr' with ⟨hr', -⟩ | ⟨r0, hr0, hm, rfl⟩
  · rw [eq_of_key (t := w.db.outbox) hr' hr hid, isNone_iff_eq_none.1 hfree] at hlease
    cases hlease
  · have hid : r0.commsRequestId = r.commsRequestId := hid
    obtain ⟨r1, hr1, hid1, he⟩ := hc.eligible _ hm
    rw [eq_of_key (t := w.db.outbox) hr1 hr (hid1.trans hid)] at he
    exact ⟨hid ▸ hm, he⟩

/-- They are no more than were picked. -/
theorem length_newlyLeased_le (hc : Claimed w.db eligible leasedUntil ids rows w'.db) :
    (w.newlyLeased w').length ≤ ids.length := by
  have hn : ((w.newlyLeased w').map (·.commsRequestId)).Nodup :=
    w.db.outbox.nodup.sublist (filter_sublist.map _)
  have hsub : (w.newlyLeased w').map (·.commsRequestId) ⊆ ids := by
    intro id hid
    obtain ⟨r, hr, rfl⟩ := List.mem_map.1 hid
    exact (mem_newlyLeased hc hr).1
  simpa using (subperm_of_subset hn hsub).length_le

end

variable {db : TenantDb}

/-- A claim for a scope picks no more rows than its limit. -/
theorem length_ids_le_of_claimForScope [UuidCrate] {db' : TenantDb} {now : Time}
    {channel : Option String} {k : KillSwitch} {limit : Nat} {leasedUntil : Time}
    {e : ChannelExclusion} {pick : Pick} {rows : OutboxRows}
    (h : claimForScope db now channel k limit leasedUntil e pick = some (rows, db')) :
    pick.ids.length ≤ limit := by
  unfold claimForScope at h
  split at h
  · unfold TenantDb.claimNothing at h
    split at h
    · next hn => rw [hn]; exact zero_le _
    · cases h
  · unfold TenantDb.claimWhere at h
    split at h
    · next hs =>
      simp only [Selects, and_eq_true, decide_eq_true_eq] at hs
      exact hs.1.2
    · cases h

/-! ## The invariant -/

/-- The row of the job had not expired, or is being written as expired. -/
def Job.Handled (clock : Time) (j : Job) : Prop :=
  (∃ write attempt, j.stage = .bounded write attempt) ∨ j.row.expiresAt.any (· ≤ clock) = false

/-- A bounded write that is not over is repeated. -/
theorem exists_bounded_of_goto {cfg : Config} {row : OutboxRow} {env : Env} {write : BoundedWrite}
    {attempt : Nat} {stage : Stage}
    (h : (tryProcess cfg db row env (.bounded write attempt)).1 = .goto stage) :
    ∃ write attempt, stage = .bounded write attempt := by
  simp only [tryProcess, Next.databaseError] at h
  cases hreply : env.reply with
  | ok =>
    rw [hreply] at h
    cases h
  | failed | lost =>
    rw [hreply] at h
    dsimp only at h
    split at h
    · cases h
      exact ⟨_, _, rfl⟩
    · cases h

variable {clock : Time}

/-- What is handed to the provider had not expired. -/
theorem Job.Handled.of_send {j : Job} (h : j.Handled clock) (hs : j.stage = .send) :
    j.row.expiresAt.any (· ≤ clock) = false := by
  refine h.resolve_left ?_
  rintro ⟨write, attempt, hb⟩
  cases hs.symm.trans hb

/-- The batch that a drain has claimed. -/
theorem handled_batch {channel : String} {k : KillSwitch} {rows : OutboxRows} :
    ∀ j ∈ (TaskKind.drain channel k).batch clock rows, j.Handled clock := by
  intro j hj
  obtain ⟨-, hstage⟩ := mem_batch.1 hj
  rw [TaskKind.firstStage] at hstage
  split at hstage
  · exact .inl ⟨_, _, hstage⟩
  · next hne => exact .inr (by simpa using hne)

/-- The batch after a pass over one of its jobs. -/
theorem handled_nextJobs {cfg : Config} {env : Env} {jobs : Jobs} {job : Job}
    (h : ∀ j ∈ jobs, j.Handled clock) (hjob : job ∈ jobs) :
    ∀ j ∈ (tryProcess cfg db job.row env job.stage).1.jobs jobs job, j.Handled clock := by
  intro j hj
  rcases (mem_nextJobs hjob).1 hj with ⟨hj, -⟩ | ⟨stage, hgoto, rfl⟩
  · exact h j hj
  · refine (h job hjob).imp_left fun hbounded => ?_
    obtain ⟨write, attempt, hb⟩ := hbounded
    rw [hb] at hgoto
    exact exists_bounded_of_goto hgoto

section
variable [UuidCrate]

/-- What holds where the drain of the channel stands. -/
def Ramp.At (s : Ramp) (channel : String) : Pc → Prop
  | .ready => ∀ b ∈ s.batches, b.time + second ≤ s.wakes
  | .claiming _ e => (∀ b ∈ s.batches, b.time + second ≤ s.now) ∧
      e = exclusionForChannel s.engaged channel
  | .working jobs => ∀ j ∈ jobs, j.Handled s.clock
  | .delaying _ _ => False
  | _ => True

/-- The drain `t` has kept its pace, and has leased and handed over what it may. -/
structure Ramp.Paced (t : Nat) (s : Ramp) : Prop where
  spaced : Pace.Spaced second Batch.time s.batches
  past : ∀ b ∈ s.batches, b.time ≤ s.now
  absent : (∀ p channel k pc, s.world.tasks[t]? ≠ some ⟨p, .drain channel k, pc⟩) → s.batches = []
  place : ∀ {p channel k pc}, s.world.tasks[t]? = some ⟨p, .drain channel k, pc⟩ → s.At channel pc
  rate : ∀ {p channel k pc}, s.world.tasks[t]? = some ⟨p, .drain channel k, pc⟩ →
    s.batches = [] ∨ ∃ cfg, s.world.config p = some cfg ∧
      ∀ b ∈ s.batches, b.rows.length ≤ cfg.releaseRate
  held : ∀ b ∈ s.batches, ∀ r ∈ b.rows, ∀ k ∈ b.engaged, k.matchesRow r = false
  unexpired : ∀ c ∈ s.calls, c.row.expiresAt.any (· ≤ c.clock) = false

theorem World.Initial.paced {w : World} (h : w.Initial) (t : Nat) (now : Time) :
    (Ramp.start w now).Paced t := by
  have hno : ∀ {task : Task}, (Ramp.start w now).world.tasks[t]? ≠ some task := by
    intro task ht
    rw [Ramp.start, h.tasks] at ht
    cases ht
  exact ⟨.nil, fun b hb => (by cases hb), fun _ => rfl, fun ht => absurd ht hno,
    fun ht => absurd ht hno, fun b hb => (by cases hb), fun c hc => (by cases hc)⟩

namespace Ramp.Paced

variable {t : Nat} {s s' : Ramp} {a : Act} {env : Env}
variable {k : KillSwitch} {channel : String} {p : Nat} {time : Time} {w' : World}
variable {leasedUntil : Time} {e : ChannelExclusion}

/-- A drain that is not there after a step was not there before. -/
theorem absent_step (h : s.Paced t) (hs : s.world.Step a s'.world)
    (hno : ∀ p channel k pc, s'.world.tasks[t]? ≠ some ⟨p, .drain channel k, pc⟩) :
    s.batches = [] := by
  refine h.absent fun p channel k pc ht => ?_
  obtain ⟨pc', ht'⟩ := exists_pc_of_step hs ht
  exact hno p channel k pc' ht'

/-- A drain was there before the step, or is new and has leased nothing. -/
theorem drain_step (h : s.Paced t) (hs : s.world.Step a s'.world) {pc' : Pc}
    (ht' : s'.world.DrainAt t p channel k pc') :
    (∃ pc, s.world.DrainAt t p channel k pc) ∨ (s.batches = [] ∧ pc' = .ready) := by
  by_cases hlt : t < s.world.tasks.length
  · have ht := getElem?_eq_getElem hlt
    generalize s.world.tasks[t] = task at ht
    obtain ⟨pc1, ht1⟩ := exists_pc_of_step hs ht
    obtain ⟨owner, kind, pc⟩ := task
    cases ht1.symm.trans ht'
    exact .inl ⟨pc, ht⟩
  · refine .inr ⟨h.absent fun p channel k pc ht => hlt (List.getElem?_eq_some_iff.1 ht).1, ?_⟩
    cases spawned_cases hs (not_lt.1 hlt) ht' with
    | drain => rfl

/-- A step after which the drain has leased nothing more. -/
theorem of_same (h : s.Paced t) (hs : s.world.Step a s'.world) (hnow : s.now ≤ s'.now)
    (hbatches : s'.batches = s.batches)
    (hcalls : ∀ c ∈ s'.calls, c ∈ s.calls ∨ c.row.expiresAt.any (· ≤ c.clock) = false)
    (hplace : ∀ {p channel k pc'}, s'.world.DrainAt t p channel k pc' →
      s'.At channel pc') : s'.Paced t where
  spaced := hbatches ▸ h.spaced
  past b hb := (h.past b (hbatches ▸ hb)).trans hnow
  absent hno := hbatches.trans (h.absent_step hs hno)
  place := hplace
  rate ht' := by
    rw [hbatches]
    rcases h.drain_step hs ht' with ⟨pc, ht⟩ | ⟨hnone, -⟩
    · exact (h.rate ht).imp_right fun ⟨cfg, hcfg, hle⟩ => ⟨cfg, config_of_step hs hcfg, hle⟩
    · exact .inl hnone
  held := hbatches ▸ h.held
  unexpired c hc := (hcalls c hc).elim (h.unexpired c) id

/-- A claim of the drain, within its rate and beside the engaged switches. -/
theorem of_claim (h : s.Paced t) (hs : s.world.Step a s'.world) {cfg : Config}
    (ht : s.world.DrainAt t p channel k (.claiming leasedUntil e))
    (hcfg : s.world.config p = some cfg) (hnow : s.now ≤ s'.now) {rows : List OutboxRow}
    (hbatches : s'.batches = s.batches ++ [⟨s'.now, rows, s.engaged⟩]) (hcalls : s'.calls = s.calls)
    (hrate : rows.length ≤ cfg.releaseRate)
    (hheld : ∀ r ∈ rows, r.channel = channel ∧ ¬ e.ExcludesRow r)
    (hplace : ∀ {pc'}, s'.world.DrainAt t p channel k pc' → s'.At channel pc') : s'.Paced t := by
  obtain ⟨hspaced, rfl⟩ := h.place ht
  have hmem : ∀ {b}, b ∈ s'.batches → b ∈ s.batches ∨ b = ⟨s'.now, rows, s.engaged⟩ := by
    intro b hb
    rwa [hbatches, mem_append, mem_singleton] at hb
  -- the task after the step is the drain
  have hsame : ∀ {p' channel' k' pc'},
      s'.world.tasks[t]? = some ⟨p', .drain channel' k', pc'⟩ →
      p' = p ∧ channel' = channel ∧ k' = k := by
    intro p' channel' k' pc' ht'
    obtain ⟨pc1, ht1⟩ := exists_pc_of_step hs ht
    cases ht1.symm.trans ht'
    exact ⟨rfl, rfl, rfl⟩
  refine ⟨?_, fun b hb => ?_, fun hno => ?_, fun ht' => ?_, fun ht' => ?_, fun b hb => ?_,
    hcalls ▸ h.unexpired⟩
  · rw [hbatches]
    exact h.spaced.snoc fun b hb => (hspaced b hb).trans hnow
  · rcases hmem hb with hb | rfl
    · exact (h.past b hb).trans hnow
    · exact le_rfl
  · obtain ⟨pc', ht'⟩ := exists_pc_of_step hs ht
    exact absurd ht' (hno _ _ _ _)
  · obtain ⟨rfl, rfl, rfl⟩ := hsame ht'
    exact hplace ht'
  · obtain ⟨rfl, rfl, rfl⟩ := hsame ht'
    refine .inr ⟨cfg, config_of_step hs hcfg, fun b hb => ?_⟩
    rcases hmem hb with hb | rfl
    · rcases h.rate ht with hnone | ⟨cfg', hcfg', hle⟩
      · rw [hnone] at hb
        cases hb
      · cases hcfg.symm.trans hcfg'
        exact hle b hb
    · exact hrate
  · rcases hmem hb with hb | rfl
    · exact h.held b hb
    · intro r hr k' hk'
      obtain ⟨hch, hne⟩ := hheld r hr
      by_contra hm
      exact hne (covers_exclusionForChannel hk' r hch (by simpa using hm))

/-- A place the drain stands at while time passes. -/
theorem at_later {pc : Pc} (h : s.At channel pc) (hnow : s.now ≤ time) :
    Ramp.At { s with world := w', now := time } channel pc := by
  cases pc with
  | claiming leasedUntil e => exact ⟨fun b hb => (h.1 b hb).trans hnow, h.2⟩
  | _ => exact h

/-- A step that is not one of the drain. -/
theorem step_of_other (h : s.Paced t) (hnow : s.now ≤ time) (hs : s.world.Step a w')
    (hne : ∀ p channel k pc env, s.world.DrainAt t p channel k pc →
      a ≠ .task t env) : (s.observe t time a w').Paced t := by
  rw [Ramp.observe_of_ne hne]
  refine h.of_same hs hnow rfl (fun c hc => .inl hc) fun {p channel k pc'} ht' => ?_
  rcases h.drain_step hs ht' with ⟨pc, ht⟩ | ⟨hnone, rfl⟩
  · rcases task_of_step hs ht with hsame | ⟨-, hend⟩ | ⟨env, ha, -⟩
    · cases hsame.symm.trans ht'
      exact at_later (h.place ht) hnow
    · cases hend.symm.trans ht'
      trivial
    · exact absurd ha (hne p channel k pc env ht)
  · intro b hb
    rw [hnone] at hb
    cases hb

/-- A claim of the drain that took effect. -/
theorem step_of_claimed (h : s.Paced t) (hnow : s.now ≤ time) (hs : s.world.Step (.task t env) w')
    {cfg : Config} {rows : OutboxRows}
    (ht : s.world.DrainAt t p channel k (.claiming leasedUntil e))
    (hcfg : s.world.config p = some cfg)
    (hquery : (TaskKind.drain channel k).query cfg s.world.db env leasedUntil e =
      some (rows, w'.db))
    (hplace : ∀ {pc'}, w'.DrainAt t p channel k pc' →
      (s.observe t time (.task t env) w').At channel pc') :
    (s.observe t time (.task t env) w').Paced t := by
  have hc : Claimed s.world.db _ leasedUntil env.pick.ids rows w'.db := claimForScope_spec hquery
  rw [Ramp.observe_claiming ht] at hplace ⊢
  refine h.of_claim hs ht hcfg hnow rfl rfl ?_ (fun r hr => ?_) hplace
  · exact (length_newlyLeased_le hc).trans (length_ids_le_of_claimForScope hquery)
  · obtain ⟨-, -, hch, -, hne⟩ := claimForScopeEligible_iff.1 (mem_newlyLeased hc hr).2
    exact ⟨hch channel rfl, hne⟩

/-- A step of the drain. -/
theorem step_of_drain (h : s.Paced t) (hnow : s.now ≤ time) (hwake : s.wakes ≤ time) {pc : Pc}
    (ht : s.world.DrainAt t p channel k pc) (hstep : s.world.TaskStep t env w') :
    (s.observe t time (.task t env) w').Paced t := by
  have hs : s.world.Step (.task t env) w' := .task hstep
  have hlt : t < s.world.tasks.length := (List.getElem?_eq_some_iff.1 ht).1
  have hconfig : ∀ {task : Task} {host : Host} {d : Dispatcher}, s.world.Runs t task host d →
      s.world.config task.owner = some d.cfg := fun runs => by
    simp [World.config, (host?_eq_some.1 runs.alive).1, runs.dispatcher]
  -- what the drain has leased, it leased a second before the end of the pause that starts now
  have hpause : ∀ b, b ∈ s.batches ∨ b.time = time → b.time + second ≤ time + second := by
    rintro b (hb | rfl)
    · exact Int.add_le_add_right ((h.past b hb).trans hnow) second
    · exact le_rfl
  have hpauseClaim : ∀ rows engaged, ∀ b ∈ s.batches ++ [⟨time, rows, engaged⟩],
      b.time + second ≤ time + second := fun rows engaged b hb => hpause b
    ((mem_append.1 hb).imp_right fun hb => by rw [mem_singleton.1 hb])
  cases hstep with
  | @looped task _ _ pc' runs loop =>
    cases ht.symm.trans runs.lookup
    cases pc <;> cases loop
    · rw [Ramp.observe_ready ht]
      refine h.of_same hs hnow rfl (fun c hc => .inl hc) fun {p channel k pc'} ht' => ?_
      cases (getElem?_set_self hlt).symm.trans ht'
      refine ⟨fun b hb => (h.place ht b hb).trans hwake, ?_⟩
      show exclusionForChannel _ channel = exclusionForChannel (s.world.snapshot p) channel
      rw [World.snapshot, runs.alive]
      rfl
    · exact (h.place ht).elim
  | failed runs pc reply =>
    cases ht.symm.trans runs.lookup
    cases pc
    have hnone : ∀ task pc, s.world.newlyLeased (s.world.moved t task ⟨pc, s.world.db, []⟩) = [] :=
      fun _ _ => newlyLeased_of_eq rfl
    rw [Ramp.observe_claiming ht, hnone, reply]
    refine h.of_claim hs ht (hconfig runs) hnow rfl rfl (zero_le _)
      (fun r hr => absurd hr not_mem_nil) fun {pc'} ht' => ?_
    cases (getElem?_set_self hlt).symm.trans ht'
    exact hpauseClaim _ _
  | lost runs pc reply query =>
    cases ht.symm.trans runs.lookup
    cases pc
    refine h.step_of_claimed hnow hs ht (hconfig runs) query fun {pc'} ht' => ?_
    cases (getElem?_set_self hlt).symm.trans ht'
    rw [Ramp.observe_claiming ht, reply]
    exact hpauseClaim _ _
  | @claimed _ _ _ _ _ rows _ runs pc reply query =>
    cases ht.symm.trans runs.lookup
    cases pc
    refine h.step_of_claimed hnow hs ht (hconfig runs) query fun {pc'} ht' => ?_
    cases (getElem?_set_self hlt).symm.trans ht'
    rw [Ramp.observe_claiming ht]
    split
    · trivial
    · exact handled_batch
  | batchDone runs pc empty =>
    cases ht.symm.trans runs.lookup
    cases pc
    rw [Ramp.observe_batchDone empty ht]
    refine h.of_same hs hnow rfl (fun c hc => .inl hc) fun {p channel k pc'} ht' => ?_
    cases (getElem?_set_self hlt).symm.trans ht'
    exact fun b hb => hpause b (.inl hb)
  | @passed _ _ d jobs job rest runs pc head =>
    cases ht.symm.trans runs.lookup
    cases pc
    have hjob : job ∈ jobs := by rw [Table.mem_def, head]; exact .head _
    have hold : ∀ j ∈ jobs, j.Handled s.clock := h.place ht
    rw [Ramp.observe_passed head ht]
    refine h.of_same hs hnow rfl (fun c hc => ?_) fun {p channel k pc'} ht' => ?_
    · dsimp only at hc
      split at hc
      · next hsend =>
        rcases mem_append.1 hc with hc | hc
        · exact .inl hc
        · cases mem_singleton.1 hc
          exact .inr ((hold job hjob).of_send hsend)
      · exact .inl hc
    · cases (getElem?_set_self hlt).symm.trans ht'
      exact handled_nextJobs hold hjob
  | spawned runs kind | drained runs kind =>
    cases ht.symm.trans runs.lookup
    cases kind

end Ramp.Paced

variable {t : Nat} {s s' : Ramp} {w0 : World} {now0 : Time} {es : List (Time × Act)}

/-- Every step keeps the pace of the drain. -/
theorem Ramp.Paced.step (h : s.Paced t) {e : Time × Act} (hstep : s.step t e = some s') :
    s'.Paced t := by
  obtain ⟨time, a⟩ := e
  obtain ⟨⟨hnow, hawake⟩, hstep⟩ := ite_none_right_eq_some.1 hstep
  obtain ⟨w', hw, rfl⟩ := map_eq_some_iff.1 hstep
  by_cases ha : ∃ p channel k pc env, s.world.DrainAt t p channel k pc ∧ a = .task t env
  · obtain ⟨p, channel, k, pc, env, ht, rfl⟩ := ha
    have hwake : s.wakes ≤ time := by simpa [Ramp.awake] using hawake
    cases step_cases hw with
    | refresh alive step => cases step
    | task hts => exact h.step_of_drain hnow hwake ht hts
  · exact h.step_of_other hnow (step_cases hw) fun p channel k pc env ht heq =>
      ha ⟨p, channel, k, pc, env, ht, heq⟩

/-- Whatever fails, in any interval of any run the drain of a released switch on a channel leases at
most its rate of rows for every full second of the interval and once more; a row that it leases is
not matched by a switch that was engaged when the exclusion of its batch was built; and a row that
it hands to the provider had not expired when its batch was claimed. -/
theorem release_ramp (h0 : w0.Initial)
    (h : Run.Steps (Ramp.step t) Run.Any (.start w0 now0) es s) {p : Nat} {channel : String}
    {k : KillSwitch} {pc : Pc} {cfg : Config}
    (ht : s.world.tasks[t]? = some ⟨p, .drain channel k, pc⟩)
    (hcfg : s.world.config p = some cfg) :
    (∀ start len : Time,
      (s.leased start (start + len)).length ≤ cfg.releaseRate * ((len / second).toNat + 1)) ∧
    (∀ b ∈ s.batches, ∀ r ∈ b.rows, ∀ k' ∈ b.engaged, k'.matchesRow r = false) ∧
    ∀ c ∈ s.calls, c.row.expiresAt.any (· ≤ c.clock) = false := by
  have hpaced : s.Paced t :=
    h.inv (I := Ramp.Paced t) (fun _ _ _ _ hstep hi => hi.step hstep) (h0.paced t now0)
  refine ⟨fun start len => ?_, hpaced.held, hpaced.unexpired⟩
  have hin : ∀ b ∈ s.batches.filter fun b => start ≤ b.time && b.time ≤ start + len,
      start ≤ b.time ∧ b.time ≤ start + len := fun b hb => by
    simpa using (List.mem_filter.1 hb).2
  refine (hpaced.spaced.filter _).length_flatMap_le (by decide) hin fun b hb => ?_
  rcases hpaced.rate ht with hnone | ⟨cfg', hcfg', hle⟩
  · rw [hnone] at hb
    cases hb
  · cases hcfg.symm.trans hcfg'
    exact hle b (List.mem_filter.1 hb).1

end

/-- A drain at one row a second claims a row, hands it over, sleeps a second and finds nothing more.
-/
def rampRun : List (Time × Act) :=
  (releaseOf .rateOne).map ((0, ·)) ++ [(0, Act.task 2 {}), (0, .claim 2 ⟨7⟩)] ++
    List.replicate 14 ((0, Act.task 2 {}) : Time × Act) ++
    List.replicate 2 ((second, Act.task 2 {}) : Time × Act)

theorem release_ramp_rampRun :
    ∃ s : Ramp, Run.Steps (@Ramp.step .sample 2) Run.Any (.start .empty 0) rampRun s ∧
      s.batches.length = 2 ∧ s.calls.length = 1 ∧
      (s.leased 0 second).length ≤ 1 * ((second / second).toNat + 1) := by
  obtain ⟨s, h, hp⟩ := Run.Steps.exists_of_exec (@Ramp.step .sample 2) (.start .empty 0) rampRun
    (fun s => s.world.config 0 = some .rateOne && s.batches.length = 2 && s.calls.length = 1 &&
      (s.world.tasks[2]?.any fun task => task.owner = 0 && task.kind = .drain "sms" (.sample ⟨9⟩)))
    (by decide +kernel)
  simp only [Bool.and_eq_true, decide_eq_true_eq, Option.any_eq_true] at hp
  obtain ⟨⟨⟨hcfg, hbatches⟩, hcalls⟩, ⟨owner, kind, pc⟩, ht, rfl, rfl⟩ := hp
  refine ⟨s, h, hbatches, hcalls, ?_⟩
  have := (@release_ramp .sample _ _ _ _ _ World.initial_empty h _ _ _ _ _ ht hcfg).1 0 second
  rwa [Int.zero_add] at this

end Messgr
