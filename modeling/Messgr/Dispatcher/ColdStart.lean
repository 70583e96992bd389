import Messgr.Dispatcher.ChannelLoops
import Messgr.Dispatcher.Switches

/-!
# Switches engaged before a process starts

A host starts with an empty cache, which a loop of its own fills. A switch that is engaged from
before a host starts is never ignored there, neither by the claims of its channel loops nor by the
check of requests, in runs in which no loop takes its snapshot and no request is checked before a
refresh has read the tier of the switch (`engaged_before_start`).
-/

namespace Messgr

open List Bool Nat World
open Indexed (All)

/-- A condition: on the hosts from `n` on a channel loop takes its snapshot, and a request
that the switch matches is checked, only after a refresh of that host has read the tier of the
switch. -/
def afterRefresh [UuidCrate] (n : Nat) (tier : Tier) (s : KillSwitch) (w : World) : Act → Bool
  | .task t _ => w.tasks[t]?.all fun task =>
    match task.kind, task.pc with
    | .channelLoop _, .ready => task.owner < n || w.refreshed task.owner tier
    | _, _ => true
  | .createComms h c =>
    h < n || !s.matchesOn c.channel c.producerId c.campaignId || w.refreshed h tier
  | _ => true

/-- Tasks and admitted requests are those of hosts that there are. -/
structure Placed (w : World) : Prop where
  tasks : All (fun _ task => task.owner < w.hosts.length) w.tasks
  admitted : ∀ h c, .admitted h c ∈ w.log → h < w.hosts.length

theorem placed_initial {w : World} (h0 : w.Initial) : Placed w :=
  ⟨h0.tasks ▸ All.nil, fun _ _ ho => absurd (h0.log ▸ ho) not_mem_nil⟩

/-- A new host has missed nothing. -/
theorem fresh_new {w : World} {h : Nat} {tier : Tier} {s : KillSwitch} {host : Host}
    (hlog : ∀ o ∈ w.log, o.ofHost ≠ some h)
    (hnew : (∃ cfg, host = .newDispatcher cfg) ∨ host = .newContext) :
    Observer.Fresh tier s (w.observer h host) := by
  refine ⟨fun l hl => ?_, fun hr => ?_⟩
  · rcases hnew with ⟨cfg, rfl⟩ | rfl <;> cases hl
  · have hno : ∀ b, .refreshed h b ∉ w.log := fun b hb => hlog _ hb rfl
    cases tier <;> simp [World.observer, World.refreshed, hno] at hr

section
variable [UuidCrate]

/-- The hosts from `n` on do not ignore a switch: they have not missed it in their reads, their
channel loops take it into account and hold no row of it, and they have admitted no request of it.
-/
structure Heeded (n : Nat) (tier : Tier) (s : KillSwitch) (w : World) : Prop where
  hosts : All (fun h host => n ≤ h → Observer.Fresh tier s (w.observer h host)) w.hosts
  tasks : All (fun _ task => n ≤ task.owner → ∀ channel, task.kind = .channelLoop channel →
    task.pc.Heeds channel .active s ∧ ∀ j ∈ task.pc.jobs, s.matchesRow j.row = false) w.tasks
  admitted : ∀ h c, .admitted h c ∈ w.log → n ≤ h →
    s.matchesOn c.channel c.producerId c.campaignId = false

variable {w w' : World} {a : Act} {h n : Nat} {s : KillSwitch} {tier : Tier}

/-- A request is admitted when no switch of the host's cache blocks it. -/
theorem admitted_of_step (hs : w.Step a w') {c : NewComms} (ho : .admitted h c ∈ w'.log) :
    .admitted h c ∈ w.log ∨ a = .createComms h c ∧ ∃ host, w.hosts[h]? = some host ∧
      host.cache.blockingScope c.channel c.producerId c.campaignId = none := by
  have hadd : ∀ {obs : List Obs}, .admitted h c ∈ w.log ++ obs → .admitted h c ∉ obs →
      .admitted h c ∈ w.log := by
    intro obs ho hobs
    exact (mem_append.1 ho).resolve_right hobs
  cases hs with
  | acquired | cancelled | wasCancelled => exact .inl (hadd ho (by simp))
  | refresh alive step =>
    cases step with
    | swapped => exact .inl (hadd ho (by simp))
    | _ => exact .inl ho
  | task step =>
    cases step with
    | spawned => exact .inl ho
    | looped | failed | lost | claimed | batchDone | drained => exact .inl (hadd ho (by simp))
    | passed runs pc head =>
      refine .inl (hadd ho fun hm => ?_)
      obtain ⟨heq, -⟩ | ⟨status, heq⟩ := (passObs_cases hm).2 <;> cases heq
  | admitted alive free =>
    rcases mem_append.1 ho with ho | ho
    · exact .inl ho
    · cases mem_singleton.1 ho
      exact .inr ⟨rfl, _, (host?_eq_some.1 alive).1, free⟩
  | _ => exact .inl ho

/-- Every step keeps tasks and log on hosts that there are. -/
theorem Placed.step (hp : Placed w) (hw : Switching w) (hs : w.Step a w') : Placed w' := by
  refine ⟨fun t task' ht' => ?_, fun h c ho => ?_⟩
  · by_cases hlt : t < w.tasks.length
    · have ht := getElem?_eq_getElem hlt
      refine hw.host_of_step hs (?_ : _ < w.hosts.length)
      have howner := hp.tasks t _ ht
      obtain ⟨pc, ht''⟩ := exists_pc_of_step hs ht
      cases ht'.symm.trans ht''
      exact howner
    · obtain ⟨⟨host, hh⟩, -⟩ := spawned_of_step hs (not_lt.1 hlt) ht'
      exact hw.host_of_step hs (List.getElem?_eq_some_iff.1 hh).1
  · refine hw.host_of_step hs ?_
    rcases admitted_of_step hs ho with ho | ⟨-, host, hh, -⟩
    · exact hp.admitted h c ho
    · exact (List.getElem?_eq_some_iff.1 hh).1

/-- The switch is in the cache of a host that has read its tier. -/
theorem Heeded.mem_cache (hd : Heeded n tier s w) (hn : n ≤ h) {host : Host}
    (hh : w.hosts[h]? = some host) (hr : w.refreshed h tier = true) : s ∈ host.cache.switches :=
  (hd.hosts h host hh hn).cache hr

/-- A step leaves the switch in view while it is engaged. -/
theorem Heeded.step (hd : Heeded n tier s w) (hw : Switching w)
    (hc : afterRefresh n tier s w a = true) (hlive : s ∈ w.liveSwitches tier)
    (hs : w.step a = some w') : Heeded n tier s w' := by
  have hw' := hw.step hs
  replace hs := step_cases hs
  refine ⟨fun h host' hh' hn => ?_, fun t task' ht' hn channel hk => ?_, fun h c ho hn => ?_⟩
  · by_cases hlt : h < w.hosts.length
    · have hget := getElem?_eq_getElem hlt
      have ho := hw.hosts h _ hget
      obtain ⟨host'', hh'', hobs⟩ := ho.step hw.tables hget hs
      cases hh'.symm.trans hh''
      exact (hd.hosts h _ hget hn).step ho.inv hlive hobs.step
    · -- a new host has read nothing
      refine fresh_new (fun o ho hoh => hlt (hw.ofHost_lt hs ho hoh)) ?_
      exact new_of_step hs (not_lt.1 hlt) hh'
  · by_cases hlt : t < w.tasks.length
    · obtain ⟨task, ht⟩ : ∃ task, w.tasks[t]? = some task := ⟨_, getElem?_eq_getElem hlt⟩
      have hold := hd.tasks t task ht
      rcases task_of_step hs ht with ht1 | ⟨-, ht1⟩ | ⟨env, rfl, hts⟩
      · cases ht'.symm.trans ht1
        exact hold hn channel hk
      · cases ht'.symm.trans ht1
        exact ⟨trivial, fun j hj => absurd hj (Table.not_mem_empty j)⟩
      · obtain ⟨pc, ht1⟩ := exists_pc_of_taskStep hts ht
        cases ht'.symm.trans ht1
        replace hk : task.kind = .channelLoop channel := hk
        obtain ⟨hheeds, hjobs⟩ := hold hn channel hk
        obtain ⟨host, d, pc', alive, -, -, ht2, hl⟩ := loopStep_of_taskStep hts ht hk
        cases ht1.symm.trans ht2
        refine ⟨hl.heeds (fun _ hpc => ?_) SwitchSource.noConfusion hheeds,
          hl.not_matches hheeds hjobs⟩
        refine hd.mem_cache hn (host?_eq_some.1 alive).1 ?_
        simpa [afterRefresh, ht, hk, hpc, not_lt.2 hn] using hc
    · obtain ⟨-, hpc⟩ := spawned_of_step hs (not_lt.1 hlt) ht'
      rcases hpc with hpc | hpc <;> rw [hpc] <;>
        exact ⟨trivial, fun j hj => absurd hj (Table.not_mem_empty j)⟩
  · rcases admitted_of_step hs ho with ho | ⟨rfl, host, hh, hfree⟩
    · exact hd.admitted h c ho hn
    · by_contra hm
      replace hm : s.matchesOn c.channel c.producerId c.campaignId = true := by simpa using hm
      have hr : w.refreshed h tier = true := by
        simpa [afterRefresh, hm, not_lt.2 hn] using hc
      have hsome := blockingScope_isSome.2 ⟨s, hd.mem_cache hn hh hr, hm⟩
      rw [hfree] at hsome
      cases hsome

/-- A switch that is engaged from before a host starts is not ignored there, while the host has
read the switch's tier into its cache before a channel loop takes its snapshot and before a request
is checked: no channel loop of a dispatcher started since claims a row that the switch matches, and
no tenant context opened since admits such a request. -/
theorem engaged_before_start {w0 w1 w2 : World} {as bs : List Act} (h0 : w0.Initial)
    (hi : w0.SwitchesInOrder) (h1 : Run.Steps World.step Run.Any w0 as w1)
    (h : Run.Steps World.step
      (fun w a => afterRefresh w1.hosts.length tier s w a ∧ s ∈ w.liveSwitches tier) w1 bs w2) :
    (∀ (t : Nat) (task : Task) (channel : String), w2.tasks[t]? = some task →
      task.kind = .channelLoop channel → w1.hosts.length ≤ task.owner →
      ∀ j ∈ task.pc.jobs, s.matchesRow j.row = false) ∧
    ∀ h c, .admitted h c ∈ w2.log → w1.hosts.length ≤ h →
      s.matchesOn c.channel c.producerId c.campaignId = false := by
  have hw1 : Switching w1 := switching_of_steps (switching_initial h0 hi) h1
  have hp1 : Placed w1 := h1.inv_of (fun _ _ _ _ hs hw => hw.step hs)
    (fun _ _ _ _ hs hw hp => hp.step hw (World.step_cases hs)) (switching_initial h0 hi)
    (placed_initial h0)
  have hd1 : Heeded w1.hosts.length tier s w1 := by
    refine ⟨fun h host hh hn => ?_, fun t task ht hn => ?_, fun h c ho hn => ?_⟩
    · exact absurd (List.getElem?_eq_some_iff.1 hh).1 (Nat.not_lt.2 hn)
    · exact absurd (hp1.tasks t task ht) (Nat.not_lt.2 hn)
    · exact absurd (hp1.admitted h c ho) (Nat.not_lt.2 hn)
  have hd2 : Heeded w1.hosts.length tier s w2 := h.inv_of (fun _ _ _ _ hs hw => hw.step hs)
    (fun _ _ _ hc hs hw hd => hd.step hw hc.1 hc.2 hs) hw1 hd1
  exact ⟨fun t task channel ht hk hn => (hd2.tasks t task ht hn channel hk).2,
    fun h c ho hn => hd2.admitted h c ho hn⟩

end

/-! ## Samples -/

/-- A run `bs` after a switch was engaged, at the end of which a loop holds a row and a tenant
context has admitted a request, with a condition on every step. -/
structure Started (c : World → Act → Bool) (s : KillSwitch) (bs : List Act) (w1 w2 : World)
    (task : Task) (j : Job) : Prop where
  before : Run.Steps (@World.step .sample) Run.Any .empty [.engage s] w1
  noHosts : w1.hosts.length = 0
  run : Run.Steps (@World.step .sample) (fun w a => c w a ∧ s ∈ w.liveSwitches .tenant) w1 bs w2
  live : s ∈ w2.liveSwitches .tenant
  lookup : w2.tasks[0]? = some task
  kind : task.kind = .channelLoop "sms"
  claimed : j ∈ task.pc.jobs
  admitted : .admitted 1 (.sample ⟨7⟩ "k") ∈ w2.log

/-- What there is to check for such a run. -/
def startedCheck (c : World → Act → Bool) (s : KillSwitch) (bs : List Act) : Bool :=
  (Run.exec (@World.step .sample) .empty [.engage s]).any fun w1 => w1.hosts.length = 0 &&
    (Run.exec (fun w a => if c w a && s ∈ w.switchRows .tenant then @World.step .sample w a
      else none) w1 bs).any fun w2 => s ∈ w2.switchRows .tenant &&
        w2.tasks[0]?.any (fun task =>
          task.kind = .channelLoop "sms" && !task.pc.jobs.rows.isEmpty) &&
        Obs.admitted 1 (.sample ⟨7⟩ "k") ∈ w2.log

/-- What `startedCheck` checks is such a run. -/
theorem exists_started {c : World → Act → Bool} {s : KillSwitch} {bs : List Act}
    (hs : s.releasedAt = none) (h : startedCheck c s bs = true) :
    ∃ w1 w2 task j, Started c s bs w1 w2 task j := by
  obtain ⟨w1, h1, hp⟩ := Run.Steps.exists_of_exec _ _ _ _ h
  obtain ⟨hlen, hp⟩ := and_eq_true_iff.1 hp
  obtain ⟨w2, h2, hp⟩ := Run.Steps.exists_of_checked _
    (fun w a => c w a && s ∈ w.switchRows .tenant) _ _ _ hp
  obtain ⟨hp, hadm⟩ := and_eq_true_iff.1 hp
  obtain ⟨hlive, htask⟩ := and_eq_true_iff.1 hp
  obtain ⟨task, ht, hp⟩ := (Option.any_eq_true _ _).1 htask
  obtain ⟨hk, hj⟩ := and_eq_true_iff.1 hp
  obtain ⟨j, hj⟩ := exists_mem_of_ne_nil task.pc.jobs.rows (by simpa using hj)
  refine ⟨w1, w2, task, j, h1, of_decide_eq_true hlen, h2.mono fun w a h => ?_,
    ⟨of_decide_eq_true hlive, hs⟩, ht, of_decide_eq_true hk, hj, of_decide_eq_true hadm⟩
  obtain ⟨hc, hmem⟩ := and_eq_true_iff.1 h
  exact ⟨hc, of_decide_eq_true hmem, hs⟩

/-- A dispatcher and a tenant context start, refresh, and accept and claim a message of no campaign.
-/
def sampleStart : List Act :=
  [Act.startDispatcher .sample, .openContext] ++ Act.refresh 0 ++ Act.refresh 1 ++ Act.elect 0 ++
    Act.accept 1 (.sample ⟨7⟩ "k") ++ [Act.task 0 {}] ++ Act.claimRow 0 ⟨7⟩

theorem engaged_before_start_sampleStart :
    ∃ w1 w2 task j,
      Started (@afterRefresh .sample 0 .tenant (.sampleCampaign ⟨9⟩)) (.sampleCampaign ⟨9⟩)
        sampleStart w1 w2 task j ∧
      (∀ (t : Nat) (task : Task) (channel : String), w2.tasks[t]? = some task →
        task.kind = .channelLoop channel → w1.hosts.length ≤ task.owner →
        ∀ j ∈ task.pc.jobs, @KillSwitch.matchesRow .sample (.sampleCampaign ⟨9⟩) j.row = false) ∧
      ∀ h c, .admitted h c ∈ w2.log → w1.hosts.length ≤ h →
        @KillSwitch.matchesOn .sample (.sampleCampaign ⟨9⟩) c.channel c.producerId c.campaignId =
          false := by
  have hcheck : startedCheck (@afterRefresh .sample 0 .tenant (.sampleCampaign ⟨9⟩))
      (.sampleCampaign ⟨9⟩) sampleStart = true := by
    decide
  obtain ⟨w1, w2, task, j, h⟩ := exists_started rfl hcheck
  exact ⟨w1, w2, task, j, h, @engaged_before_start .sample _ _ _ _ _ _ _ World.initial_empty
    World.switchesInOrder_empty h.before (h.noHosts.symm ▸ h.run)⟩

/-- A dispatcher and a tenant context start, and accept and claim a message before they refresh. -/
def coldStart : List Act :=
  [Act.startDispatcher .sample, .openContext] ++ Act.elect 0 ++ Act.accept 1 (.sample ⟨7⟩ "k") ++
    [Act.task 0 {}] ++ Act.claimRow 0 ⟨7⟩

/-- Without the condition the claims and the check of requests ignore a switch over everything while
the caches are cold. -/
theorem switch_ignored_coldStart :
    ¬ (∀ (w0 w1 w2 : World) (as bs : List Act) (tier : Tier) (s : KillSwitch), w0.Initial →
      w0.SwitchesInOrder → Run.Steps (@World.step .sample) Run.Any w0 as w1 →
      Run.Steps (@World.step .sample) (fun w _ => s ∈ w.liveSwitches tier) w1 bs w2 →
      s ∈ w2.liveSwitches tier →
      ∀ (t : Nat) (task : Task) (channel : String), w2.tasks[t]? = some task →
        task.kind = .channelLoop channel → w1.hosts.length ≤ task.owner →
        ∀ j ∈ task.pc.jobs, @KillSwitch.matchesRow .sample s j.row = false) ∧
    ¬ ∀ (w0 w1 w2 : World) (as bs : List Act) (tier : Tier) (s : KillSwitch), w0.Initial →
      w0.SwitchesInOrder → Run.Steps (@World.step .sample) Run.Any w0 as w1 →
      Run.Steps (@World.step .sample) (fun w _ => s ∈ w.liveSwitches tier) w1 bs w2 →
      s ∈ w2.liveSwitches tier →
      ∀ h c, .admitted h c ∈ w2.log → w1.hosts.length ≤ h →
        @KillSwitch.matchesOn .sample s c.channel c.producerId c.campaignId = false := by
  have hcheck : startedCheck (fun _ _ => true) (.sample ⟨9⟩) coldStart = true := by decide
  obtain ⟨w1, w2, task, j, hr⟩ := exists_started rfl hcheck
  have hn : ∀ h, w1.hosts.length ≤ h := fun h => hr.noHosts ▸ Nat.zero_le h
  have hrun := hr.run.mono fun _ _ h => h.2
  -- the switch matches every row and every request
  refine ⟨fun h => ?_, fun h => ?_⟩
  · exact Bool.noConfusion (h _ w1 w2 _ _ .tenant (.sample ⟨9⟩) World.initial_empty
      World.switchesInOrder_empty hr.before hrun hr.live 0 task "sms" hr.lookup hr.kind (hn _) j
      hr.claimed)
  · exact Bool.noConfusion (h _ w1 w2 _ _ .tenant (.sample ⟨9⟩) World.initial_empty
      World.switchesInOrder_empty hr.before hrun hr.live 1 _ hr.admitted (hn 1))

end Messgr
