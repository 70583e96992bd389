import Messgr.Dispatcher.HandOver

/-!
# Drains of released switches

A released `hold` switch leaves `draining` when the drains of all channels have ended, each with the
first claim that returns nothing. `release_clears`: this claim found the channel cleared, every row
that was due and not leased fell under another engaged switch. That needs that the claim may take a
row at all, that no such row is locked, and that its exclusion is not older than the active set
(`drainsSeeAll`). With the release rate 0, which the configuration admits, every claim is empty
(`backlog_left_rateZero`).
-/

namespace Messgr

open List Option Bool World

/-! ## Hosts and tasks along a step -/

/-- The task `t` is the drain of a channel for a switch. -/
abbrev World.DrainAt (w : World) (t p : Nat) (channel : String) (s : KillSwitch) (pc : Pc) : Prop :=
  w.tasks[t]? = some ⟨p, .drain channel s, pc⟩

/-- A host after a step that is not a swap of its cache. -/
structure Host.Follows (host host' : Host) : Prop where
  cache : host'.cache = host.cache
  released : ∀ s ∈ host'.refresh.released, s ∈ host.refresh.released
  cfg : host'.dispatcher.map (·.cfg) = host.dispatcher.map (·.cfg)
  alive : host'.alive = true → host.alive = true

theorem Host.Follows.refl (host : Host) : host.Follows host :=
  ⟨rfl, fun _ h => h, rfl, fun h => h⟩

/-- What a step does with a host: little, or it is the swap of its cache. -/
inductive HostStep (w w' : World) (h : Nat) (host' : Host) : Prop
  | new (fresh : w.hosts[h]? = none)
      (host : (∃ cfg, host' = .newDispatcher cfg) ∨ host' = .newContext)
  | follows {host : Host} (lookup : w.hosts[h]? = some host) (follows : host.Follows host')
  | swapped {host : Host} {fresh : List KillSwitch} {rows : Option (List PlatformKillSwitch)}
      (lookup : w.hosts[h]? = some host) (pc : host.refresh = .bothRead fresh rows)
      (host' : host' = { host with
        cache := (host.cache.swap fresh rows).2
        refresh := .delta (host.cache.swap fresh rows).1.newlyEngaged
          (host.cache.swap fresh rows).1.released })
      (log : w'.log = w.log ++ .refreshed h rows.isSome ::
        (host.cache.swap fresh rows).1.newlyEngaged.map (.seenEngaged h))

section
variable [UuidCrate] {w w' : World} {a : Act} {h : Nat} {host' : Host}

/-- Every step is one of these to a host. -/
theorem hostStep_of_step (hs : w.Step a w') (hh : w'.hosts[h]? = some host') :
    HostStep w w' h host' := by
  cases hw : w.hosts[h]? with
  | none => exact .new hw (new_of_step hs (getElem?_eq_none_iff.1 hw) hh)
  | some host =>
  have hlt := (List.getElem?_eq_some_iff.1 hw).1
  -- a step that changes the host `p`
  have hset : ∀ {p : Nat} {host0 host1 : Host}, w.host? p = some host0 →
      (w.hosts.set p host1)[h]? = some host' → host0.Follows host1 → HostStep w w' h host' := by
    intro p host0 host1 alive hget hf
    by_cases hp : p = h
    · subst hp
      cases (host?_eq_some.1 alive).1.symm.trans hw
      rw [getElem?_set_self hlt] at hget
      cases hget
      exact .follows hw hf
    · rw [getElem?_set_ne hp, hw] at hget
      cases hget
      exact .follows hw (.refl _)
  have hsame : w'.hosts[h]? = some host → HostStep w w' h host' := by
    intro hget
    cases hget.symm.trans hh
    exact .follows hw (.refl _)
  cases hs with
  | started | opened => exact hsame ((getElem?_append_left hlt).trans hw)
  | crashed alive => exact hset alive hh ⟨rfl, fun _ h => h, rfl, nofun⟩
  | acquired alive dispatcher | swept alive dispatcher | led alive dispatcher =>
    exact hset alive hh ⟨rfl, fun _ h => h, by rw [dispatcher]; rfl, fun h => h⟩
  | @refresh p host0 _ _ alive step =>
    cases step with
    | failed => exact hsame hw
    | tenant pc | platform pc | handled pc =>
      exact hset alive hh ⟨rfl, fun _ h => absurd h not_mem_nil, rfl, fun h => h⟩
    | @swapped fresh rows delta cache pc swap =>
      by_cases hp : p = h
      · subst hp
        cases (host?_eq_some.1 alive).1.symm.trans hw
        rw [getElem?_set_self hlt] at hh
        cases hh
        exact .swapped hw pc (by rw [swap]) (by rw [swap])
      · exact hsame ((getElem?_set_ne hp).trans hw)
    | engaged pc => exact hset alive hh ⟨rfl, by rw [pc]; exact fun _ h => h, rfl, fun h => h⟩
    | released pc =>
      refine hset alive hh ⟨rfl, by rw [pc]; exact fun _ h => .tail _ h, ?_, fun h => h⟩
      rw [Option.map_map]
      refine congrFun (congrArg Option.map (funext fun d => ?_)) _
      show (d.drain _).cfg = d.cfg
      unfold Dispatcher.drain
      split <;> rfl
  | task step =>
    cases step with
    | drained runs =>
      exact hset runs.alive hh ⟨rfl, fun _ h => h, by rw [runs.dispatcher]; rfl, fun h => h⟩
    | _ => exact hsame hw
  | _ => exact hsame hw

end

/-! ## Switches that have left -/

/-- The task is there because the switch was released. -/
def TaskKind.Releases (s : KillSwitch) : TaskKind → Prop
  | .drain _ s' | .release s' => s' = s
  | _ => False

/-- A host has seen what it caches, and a switch on its way to a drain, or drained, has left the
cache. -/
structure Departing (w : World) : Prop where
  cached : ∀ (h : Nat) (host : Host), w.hosts[h]? = some host →
    ∀ s ∈ host.cache.switches, .seenEngaged h s ∈ w.log
  pending : ∀ (h : Nat) (host : Host), w.hosts[h]? = some host →
    ∀ s ∈ host.refresh.released, SeenAndLeft h s w
  tasks : ∀ (t : Nat) (task : Task), w.tasks[t]? = some task →
    ∀ s, task.kind.Releases s → SeenAndLeft task.owner s w

section
variable {w w' : World} {a : Act}

theorem departing_initial (h : w.Initial) : Departing w := by
  refine ⟨fun p host hh => ?_, fun p host hh => ?_, fun t task ht => ?_⟩
  · rw [h.hosts] at hh
    cases hh
  · rw [h.hosts] at hh
    cases hh
  · rw [h.tasks] at ht
    cases ht

/-- What a swap leaves in the cache was there, or is logged. -/
theorem Observed.seen_of_mem_swap {h : Nat} {host : Host} {fresh : List KillSwitch}
    {rows : Option (List PlatformKillSwitch)} {s : KillSwitch} (ho : Observed w h host)
    (hi : w.SwitchesInOrder) (pc : host.refresh = .bothRead fresh rows)
    (hs : s ∈ (host.cache.swap fresh rows).2.switches) :
    s ∈ host.cache.switches ∨ s ∈ (host.cache.swap fresh rows).1.newlyEngaged := by
  have hm := (ho.mem_swap hi pc).1 hs
  cases hf : host.cache.switches.find? s.id with
  | none => exact .inr (mem_filter.2 ⟨hm, by rw [hf]; rfl⟩)
  | some r =>
    obtain ⟨hr, hid⟩ := Table.find?_some hf
    rw [ho.eq_of_mem_merged hi pc hm (ho.inv.cache_known r hr) hid.symm]
    exact .inl hr

variable [UuidCrate]

theorem SeenAndLeft.step {p : Nat} {s : KillSwitch} (h : SeenAndLeft p s w) (hw : Switching w)
    (hs : w.step a = some w') : SeenAndLeft p s w' :=
  h.steps hw (C := Run.Any) (.cons trivial hs .nil)

/-- The log only grows. -/
theorem log_of_step (hs : w.Step a w') {o : Obs} (ho : o ∈ w.log) : o ∈ w'.log := by
  cases hs with
  | refresh alive step =>
    cases step with
    | swapped => exact mem_append_left _ ho
    | _ => exact ho
  | task step =>
    cases step with
    | spawned => exact ho
    | _ => exact mem_append_left _ ho
  | acquired | admitted | cancelled | wasCancelled => exact mem_append_left _ ho
  | _ => exact ho

/-- A task that is spawned for a released switch is for one that has left. -/
theorem Departing.spawned (h : Departing w) (hs : w.Step a w') {t : Nat} {task : Task}
    {s : KillSwitch} (hlt : w.tasks.length ≤ t) (ht : w'.tasks[t]? = some task)
    (hk : task.kind.Releases s) : SeenAndLeft task.owner s w := by
  cases spawned_cases hs hlt ht with
  | loop | discard => cases hk
  | release alive pc =>
    cases hk
    exact h.pending _ _ (host?_eq_some.1 alive).1 _ (by rw [pc]; exact .head _)
  | drain runs kind =>
    cases hk
    exact h.tasks _ _ runs.lookup _ (by rw [kind]; rfl)

/-- Every step keeps this. -/
theorem Departing.step (h : Departing w) (hw : Switching w) (hs : w.step a = some w') :
    Departing w' := by
  have hstep := step_cases hs
  have hcached : ∀ p host, w'.hosts[p]? = some host → ∀ s ∈ host.cache.switches,
      .seenEngaged p s ∈ w'.log := by
    intro p host' hh' s hm
    cases hostStep_of_step hstep hh' with
    | new fresh hnew => rcases hnew with ⟨cfg, rfl⟩ | rfl <;> cases hm
    | follows hh hf => exact log_of_step hstep (h.cached p _ hh s (hf.cache ▸ hm))
    | swapped hh pc heq hlog =>
      subst heq
      rcases (hw.hosts p _ hh).seen_of_mem_swap hw.tables pc hm with hm | hm
      · exact log_of_step hstep (h.cached p _ hh s hm)
      · rw [hlog]
        exact mem_append_right _ (.tail _ (mem_map_of_mem hm))
  have hpending : ∀ p host, w'.hosts[p]? = some host → ∀ s ∈ host.refresh.released,
      SeenAndLeft p s w' := by
    intro p host' hh' s hm
    cases hostStep_of_step hstep hh' with
    | new fresh hnew => rcases hnew with ⟨cfg, rfl⟩ | rfl <;> cases hm
    | follows hh hf => exact (h.pending p _ hh s (hf.released s hm)).step hw hs
    | swapped hh pc heq hlog =>
      subst heq
      obtain ⟨hm, hid⟩ := mem_filter.1 hm
      refine ⟨_, hh', log_of_step hstep (h.cached p _ hh s hm), fun hc => ?_⟩
      exact of_decide_eq_true hid
        (mem_map_of_mem ((((hw.hosts p _ hh).mem_swap hw.tables pc).1 hc)))
  refine ⟨hcached, hpending, fun t task ht s hk => ?_⟩
  by_cases hlt : t < w.tasks.length
  · obtain ⟨pc, ht'⟩ := exists_pc_of_step hstep (getElem?_eq_getElem hlt)
    cases ht.symm.trans ht'
    exact (h.tasks t _ (getElem?_eq_getElem hlt) s hk).step hw hs
  · exact (h.spawned hstep (Nat.le_of_not_lt hlt) ht hk).step hw hs

end

/-! ## The end of a release -/

/-- The drains that a release waits for are there, one for every channel. -/
def Awaiting (w : World) : Prop :=
  ∀ (t : Nat) (task : Task) (s : KillSwitch) (handles : List Nat), w.tasks[t]? = some task →
    task.kind = .release s → task.pc = .awaiting handles →
    ∀ host, w.hosts[task.owner]? = some host → ∀ d, host.dispatcher = some d →
      ∀ channel ∈ d.cfg.channels, ∃ i ∈ handles, ∃ pc,
        w.tasks[i]? = some ⟨task.owner, .drain channel s, pc⟩

section
variable [UuidCrate] {w w' : World} {a : Act} {t : Nat} {task : Task} {s : KillSwitch}

/-- A release starts to wait when it has spawned its drains. -/
theorem spawned_of_awaiting {env : Env} {handles : List Nat} (hs : w.TaskStep t env w')
    (ht : w.tasks[t]? = some task)
    (ht' : w'.tasks[t]? = some { task with pc := .awaiting handles }) :
    ∃ host d s, w.Runs t task host d ∧ task.kind = .release s ∧
      handles = List.range' w.tasks.length d.cfg.channels.length ∧
      ∀ i, w'.tasks[w.tasks.length + i]? =
        (d.cfg.channels[i]?).map fun channel => ⟨task.owner, .drain channel s, .ready⟩ := by
  have hlt : t < w.tasks.length := (List.getElem?_eq_some_iff.1 ht).1
  have hset : ∀ {pc : Pc}, (w.tasks.set t { task with pc := pc })[t]? =
      some { task with pc := .awaiting handles } → pc = .awaiting handles := by
    intro pc h
    rw [getElem?_set_self hlt] at h
    cases h
    rfl
  cases hs with
  | @looped _ _ _ pc runs loop =>
    cases ht.symm.trans runs.lookup
    cases hset ht'
    obtain ⟨owner, kind, pc⟩ := task
    cases pc <;> cases kind <;> simp [TaskKind.loopStep] at loop
    split at loop <;> cases loop
  | failed runs | lost runs =>
    cases ht.symm.trans runs.lookup
    have := hset ht'
    obtain ⟨owner, kind, pc⟩ := task
    cases kind <;> cases this
  | claimed runs =>
    cases ht.symm.trans runs.lookup
    have := hset ht'
    obtain ⟨owner, kind, pc⟩ := task
    split at this <;> cases kind <;> cases this
  | batchDone runs | passed runs | drained runs =>
    cases ht.symm.trans runs.lookup
    cases hset ht'
  | @spawned _ host d s runs kind pc =>
    cases ht.symm.trans runs.lookup
    have hl : (w.tasks.set t { task with
        pc := .awaiting (.range' w.tasks.length d.cfg.channels.length) }).length =
        w.tasks.length := length_set
    refine ⟨host, d, s, runs, kind, ?_, fun i => ?_⟩
    · have h : _ = some _ := (getElem?_append_left (by rwa [hl])).symm.trans ht'
      cases hset h
      rfl
    · refine (getElem?_append_right (by rw [hl]; omega)).trans ?_
      rw [hl, getElem?_map, Nat.add_sub_cancel_left]

/-- Every step keeps a drain of each channel awaited. -/
theorem awaiting_step (h : Awaiting w) (hd : Departing w) (hs : w.Step a w') : Awaiting w' := by
  intro t task s handles ht hk hpc host' hh' d' hd' channel hch
  by_cases hlt : t < w.tasks.length
  · obtain ⟨owner, kind, pc⟩ := task
    cases hk
    cases hpc
    have ht0 := getElem?_eq_getElem hlt
    generalize w.tasks[t] = task0 at ht0
    obtain ⟨pc', ht'⟩ := exists_pc_of_step hs ht0
    obtain ⟨owner0, kind0, pc0⟩ := task0
    cases ht.symm.trans ht'
    -- the host was there, with the same channels
    obtain ⟨host, d, hh, hdisp, hcfg⟩ : ∃ (host : Host) (d : Dispatcher),
        w.hosts[owner0]? = some host ∧ host.dispatcher = some d ∧ d.cfg = d'.cfg := by
      obtain ⟨host, hh, -⟩ := hd.tasks t _ ht0 s rfl
      have hmap : ∀ {host : Host}, host'.dispatcher.map (·.cfg) = host.dispatcher.map (·.cfg) →
          ∃ d, host.dispatcher = some d ∧ d.cfg = d'.cfg := by
        intro host hm
        rw [hd'] at hm
        exact map_eq_some_iff.1 hm.symm
      cases hostStep_of_step hs hh' with
      | new fresh => rw [fresh] at hh; cases hh
      | follows lookup follows =>
        obtain ⟨d, h1, h2⟩ := hmap follows.cfg
        exact ⟨_, d, lookup, h1, h2⟩
      | swapped lookup pc heq =>
        subst heq
        exact ⟨_, d', lookup, hd', rfl⟩
    rcases task_of_step hs ht0 with hsame | ⟨-, hend⟩ | ⟨env, rfl, hstep⟩
    · cases hsame.symm.trans ht
      obtain ⟨i, hi, pc, hc⟩ := h t _ s handles ht0 rfl rfl host hh d hdisp channel (hcfg ▸ hch)
      obtain ⟨pc', hc'⟩ := exists_pc_of_step hs hc
      exact ⟨i, hi, pc', hc'⟩
    · cases hend.symm.trans ht
    · obtain ⟨host1, d1, s1, runs, hk, rfl, hnew⟩ := spawned_of_awaiting hstep ht0 ht
      cases hk
      cases hh.symm.trans (host?_eq_some.1 runs.alive).1
      cases hdisp.symm.trans runs.dispatcher
      obtain ⟨i, hi⟩ := mem_iff_getElem?.1 (hcfg ▸ hch)
      refine ⟨w.tasks.length + i, ?_, .ready, ?_⟩
      · rw [mem_range'_1]
        have := (List.getElem?_eq_some_iff.1 hi).1
        omega
      · rw [hnew, hi]
        rfl
  · obtain ⟨-, hstart⟩ := spawned_of_step hs (Nat.not_lt.1 hlt) ht
    rw [hpc] at hstart
    rcases hstart with h | h <;> cases h

end

/-- The settings of a dispatcher. -/
def World.config (w : World) (p : Nat) : Option Config :=
  w.hosts[p]?.bind fun host => host.dispatcher.map (·.cfg)

section
variable [UuidCrate] {w w' : World} {a : Act} {p : Nat}

/-- A process keeps its settings. -/
theorem config_of_step {cfg : Config} (hs : w.Step a w') (h : w.config p = some cfg) :
    w'.config p = some cfg := by
  obtain ⟨host, hh, hcfg⟩ := bind_eq_some_iff.1 h
  have hlt : p < w'.hosts.length := by
    refine (List.getElem?_eq_some_iff.1 hh).1.trans_le ?_
    cases hs with
    | refresh alive step | task step =>
      cases step <;> first | exact le_rfl | exact length_set.ge
    | _ => first | exact le_rfl | simp
  have hh' := getElem?_eq_getElem hlt
  generalize w'.hosts[p] = host' at hh'
  refine bind_eq_some_iff.2 ⟨host', hh', ?_⟩
  cases hostStep_of_step hs hh' with
  | new fresh =>
    rw [fresh] at hh
    cases hh
  | follows lookup follows =>
    cases lookup.symm.trans hh
    rw [follows.cfg, hcfg]
  | swapped lookup pc heq =>
    cases lookup.symm.trans hh
    rw [heq]
    exact hcfg

end

section
variable [UuidCrate]

/-- Nothing is left on the channel to the switch alone: a row that is due, not leased and matched by
it falls under another switch that the dispatcher `p` has engaged. -/
def Cleared (w : World) (p : Nat) (channel : String) (s : KillSwitch) (now : Time) : Prop :=
  ∀ r ∈ w.db.outbox, r.channel = channel → r.nextAttemptAt ≤ now → r.leasedUntil = none →
    s.matchesRow r = true → ∃ s' ∈ w.switches p .active, s'.id ≠ s.id ∧ s'.matchesRow r = true

/-- The step is a claim of the drain `i`, and finds its channel cleared. -/
def FindsCleared (i p : Nat) (channel : String) (s : KillSwitch) (w : World) (a : Act) : Prop :=
  ∃ env leasedUntil e, a = .task i env ∧
    w.tasks[i]? = some ⟨p, .drain channel s, .claiming leasedUntil e⟩ ∧
    Cleared w p channel s env.now

/-- A condition: when a drain claims, it may take a row and one for it is not locked, or
there is no row for it at all and its exclusion leaves out no more than a new one would. -/
def drainsSeeAll (w : World) : Act → Bool
  | .task t env => w.tasks[t]?.all fun task =>
    match task.kind, task.pc with
    | .drain channel s, .claiming _ e =>
      let eligible := w.db.outbox.rows.filter (claimForScopeEligible env.now (some channel) s e)
      env.reply ≠ .ok ||
        ((w.config task.owner).all (1 ≤ ·.releaseRate) &&
          eligible.any (·.commsRequestId ∉ env.pick.locked)) ||
        (eligible.isEmpty &&
          (exclusionForChannel (w.switches task.owner .active) channel).subsumes e)
    | _, _ => true
  | _ => true

variable {w w' : World} {a : Act} {i p : Nat} {env : Env} {task : Task} {s : KillSwitch}
  {channel : String}

/-- A drain that ends has found its channel cleared. -/
theorem findsCleared_of_ended (hw : Switching w) (hd : Departing w)
    (hc : drainsSeeAll w (.task i env) = true) (ht : w.tasks[i]? = some task)
    (hk : task.kind = .drain channel s) (hs : w.TaskStep i env w')
    (hend : w'.tasks[i]? = some { task with pc := .ended }) :
    task.pc = .ended ∨ FindsCleared i task.owner channel s w (.task i env) := by
  have hlt : i < w.tasks.length := (List.getElem?_eq_some_iff.1 ht).1
  have hset : ∀ {pc : Pc}, (w.tasks.set i { task with pc := pc })[i]? =
      some { task with pc := .ended } → pc = .ended := by
    intro pc h
    rw [getElem?_set_self hlt] at h
    cases h
    rfl
  cases hs with
  | looped runs loop =>
    cases ht.symm.trans runs.lookup
    cases hset hend
    rw [hk] at loop
    cases hpc : task.pc <;> rw [hpc] at loop <;> cases loop
  | failed runs | lost runs =>
    cases ht.symm.trans runs.lookup
    have := hset hend
    rw [hk] at this
    cases this
  | @claimed _ host d leasedUntil e rows db' runs pc reply query =>
    cases ht.symm.trans runs.lookup
    have hempty := hset hend
    split at hempty
    · next hnil =>
      refine .inr ⟨env, leasedUntil, e, rfl, ?_, ?_⟩
      · rw [ht]
        obtain ⟨owner, kind, pc0⟩ := task
        cases hk
        cases pc
        rfl
      · have hh := (host?_eq_some.1 runs.alive).1
        simp only [drainsSeeAll, ht, hk, pc, all_some, World.config, hh, bind_some,
          runs.dispatcher, map_some, and_eq_true, or_eq_true, decide_eq_true_eq,
          List.any_eq_true, mem_filter, List.isEmpty_iff, filter_eq_nil_iff] at hc
        rcases hc with (hreply | ⟨hrate, r, ⟨hr, he⟩, hl⟩) | ⟨hnone, hsub⟩
        · exact absurd reply hreply
        · rw [hk] at query
          exact absurd (locked_of_claimForScope_nil query (isEmpty_iff.1 hnil) hrate hr he) hl
        · intro r hr hch hdue hlease hm
          have hexcl : e.ExcludesRow r := by
            by_contra hx
            refine hnone r hr (claimForScopeEligible_iff.2 ⟨hdue, hlease, ?_, hm, hx⟩)
            intro c hc
            cases hc
            exact hch
          obtain ⟨s', hs', hm'⟩ := excludes_exclusionForChannel.1
            (ChannelExclusion.excludes_of_subsumes hsub hexcl)
          refine ⟨s', hs', fun hid => ?_, by rw [KillSwitch.matchesRow, hch]; exact hm'⟩
          -- the switch has left the cache
          obtain ⟨host', hh', hseen, hleft⟩ := hd.tasks i task ht s (by rw [hk]; rfl)
          cases hh.symm.trans hh'
          have ho := hw.hosts _ _ hh
          have hs'' : s' ∈ host.cache.activeSnapshot := by simpa [World.switches, hh] using hs'
          obtain ⟨tier, hknown⟩ := ho.inv.cache_known s' hs''
          obtain ⟨tier', hknown'⟩ := ho.inv.seen_known s hseen
          exact hleft ((hw.tables.known_eq_of_id hknown hknown' hid).2 ▸ hs'')
    · cases hempty
  | batchDone runs | passed runs =>
    cases ht.symm.trans runs.lookup
    cases hset hend
  | spawned runs kind | drained runs kind =>
    cases ht.symm.trans runs.lookup
    rw [hk] at kind
    cases kind

/-- A process that crashes is gone. -/
theorem host?_none_of_crash (hs : w.step (.crash p) = some w') : w'.host? p = none := by
  obtain ⟨host, hh, hs⟩ := bind_eq_some_iff.1 hs
  cases hs
  have hlt := (List.getElem?_eq_some_iff.1 (host?_eq_some.1 hh).1).1
  simp [World.host?, getElem?_set_self hlt]

/-- A process that is gone stays away. -/
theorem host?_none_of_step {host : Host} (hs : w.Step a w') (hh : w.hosts[p]? = some host)
    (h : w.host? p = none) : w'.host? p = none := by
  have hdead : host.alive ≠ true := by
    intro ha
    rw [host?_eq_some.2 ⟨hh, ha⟩] at h
    cases h
  by_contra hne
  obtain ⟨host', hh'⟩ := ne_none_iff_exists'.1 hne
  obtain ⟨hh', ha'⟩ := host?_eq_some.1 hh'
  cases hostStep_of_step hs hh' with
  | new fresh => rw [fresh] at hh; cases hh
  | follows lookup follows =>
    cases lookup.symm.trans hh
    exact hdead (follows.alive ha')
  | swapped lookup pc heq =>
    cases lookup.symm.trans hh
    subst heq
    exact hdead ha'

/-- A drain that has ended is of a process that is gone, or found its channel cleared. -/
def Finished (w0 : World) (as : List Act) (w : World) : Prop :=
  ∀ (i p : Nat) (channel : String) (s : KillSwitch),
    w.tasks[i]? = some ⟨p, .drain channel s, .ended⟩ → w.host? p = none ∨
      Run.Passed World.step (drainsSeeAll · ·) (FindsCleared i p channel s) w0 as w

/-- Every step that meets the condition keeps drains finished. -/
theorem finished_snoc {w0 : World} {as : List Act} (hw : Switching w) (hd : Departing w)
    (h : Finished w0 as w) (hr : Run.Steps World.step (drainsSeeAll · ·) w0 as w)
    (hc : drainsSeeAll w a = true) (hs : w.step a = some w') : Finished w0 (as ++ [a]) w' := by
  intro i p channel s hi
  have hstep := step_cases hs
  by_cases hlt : i < w.tasks.length
  · have hi0 := getElem?_eq_getElem hlt
    generalize w.tasks[i] = task0 at hi0
    obtain ⟨pc', hi'⟩ := exists_pc_of_step hstep hi0
    obtain ⟨owner, kind, pc⟩ := task0
    cases hi.symm.trans hi'
    obtain ⟨host, hh, -⟩ := hd.tasks i _ hi0 s rfl
    by_cases hpc : pc = .ended
    · subst hpc
      rcases h i owner channel s hi0 with hgone | hpassed
      · exact .inl (host?_none_of_step hstep hh hgone)
      · exact .inr (hpassed.snoc hc hs)
    · rcases task_of_step hstep hi0 with hsame | ⟨rfl, -⟩ | ⟨env, rfl, htask⟩
      · cases hsame.symm.trans hi
        exact absurd rfl hpc
      · exact .inl (host?_none_of_crash hs)
      · rcases findsCleared_of_ended hw hd hc hi0 rfl htask hi with h | h
        · exact absurd h hpc
        · exact .inr (.last hr hc hs h)
  · obtain ⟨-, hstart⟩ := spawned_of_step hstep (Nat.not_lt.1 hlt) hi
    rcases hstart with h | h <;> cases h

/-- What a run under the condition keeps. -/
theorem finished_of_steps {w0 : World} {as : List Act} (h0 : w0.Initial) (hi : w0.SwitchesInOrder)
    (h : Run.Steps World.step (drainsSeeAll · ·) w0 as w) : Awaiting w ∧ Finished w0 as w := by
  have key : Switching w ∧ Departing w ∧ Awaiting w ∧ Finished w0 as w := by
    refine h.inv_history (I := fun as w => Switching w ∧ Departing w ∧ Awaiting w ∧
      Finished w0 as w) ?_ ?_
    · intro as w a w' hr hc hs ⟨hw, hd, ha, hf⟩
      exact ⟨hw.step hs, hd.step hw hs, awaiting_step ha hd (step_cases hs),
        finished_snoc hw hd hf hr hc hs⟩
    · refine ⟨switching_initial h0 hi, departing_initial h0, ?_, ?_⟩
      · intro t task s handles ht
        rw [h0.tasks] at ht
        cases ht
      · intro i p channel s ht
        rw [h0.tasks] at ht
        cases ht
  exact key.2.2

/-- A release that goes on has waited until all its drains had ended. -/
theorem ended_of_released {t : Nat} {handles : List Nat} (hs : w.step (.task t env) = some w')
    (ht : w.tasks[t]? = some task) (hk : task.kind = .release s)
    (hpc : task.pc = .awaiting handles) :
    (∃ host d, w.Runs t task host d) ∧ .drained task.owner s.id ∈ w'.log ∧
      ∀ i ∈ handles, ∃ child, w.tasks[i]? = some child ∧ child.pc = .ended := by
  simp only [World.step, World.taskStep, bind_eq_bind, bind_eq_some_iff] at hs
  obtain ⟨task', ht', host, hh, d, hd, hs⟩ := hs
  cases ht.symm.trans ht'
  simp only [hk, World.releaseStep, hpc] at hs
  split at hs
  · next hall =>
    cases hs
    refine ⟨⟨host, d, ht, hh, hd⟩, by simp, fun i hi => ?_⟩
    obtain ⟨child, hc, he⟩ := (Option.any_eq_true _ _).1 (all_eq_true.1 hall i hi)
    refine ⟨child, hc, ?_⟩
    cases hcp : child.pc <;> rw [hcp] at he <;> first | rfl | cases he
  · cases hs

/-- When a release takes its switch out of `draining`, the drain of every channel of the process
has found the channel cleared. -/
theorem release_clears {w0 : World} {as : List Act} {t : Nat} {handles : List Nat}
    (h0 : w0.Initial) (hi : w0.SwitchesInOrder)
    (h : Run.Steps World.step (drainsSeeAll · ·) w0 as w)
    (ht : w.tasks[t]? = some task) (hk : task.kind = .release s)
    (hpc : task.pc = .awaiting handles) (hs : w.step (.task t env) = some w') :
    .drained task.owner s.id ∈ w'.log ∧
    ∃ cfg, w.config task.owner = some cfg ∧ ∀ channel ∈ cfg.channels,
      ∃ i ∈ handles, Run.Passed World.step (drainsSeeAll · ·)
        (FindsCleared i task.owner channel s) w0 as w := by
  obtain ⟨hawait, hfin⟩ := finished_of_steps h0 hi h
  obtain ⟨⟨host, d, runs⟩, hlog, hended⟩ := ended_of_released hs ht hk hpc
  have hh := (World.host?_eq_some.1 runs.alive).1
  refine ⟨hlog, d.cfg, by simp [World.config, hh, runs.dispatcher], fun channel hch => ?_⟩
  obtain ⟨i, hmem, pc, hchild⟩ :=
    hawait t task s handles ht hk hpc host hh d runs.dispatcher channel hch
  obtain ⟨child, hc, he⟩ := hended i hmem
  cases hchild.symm.trans hc
  cases he
  refine ⟨i, hmem, ?_⟩
  rcases hfin i _ _ _ hchild with hgone | hpassed
  · rw [runs.alive] at hgone
    cases hgone
  · exact hpassed

end

/-- The release rate of one row a second. -/
def Config.rateOne : Config := { Config.sample with releaseRate := 1 }

/-- A message is accepted, a switch engaged and seen, released and seen again, and the drain
spawned. -/
def releaseOf (cfg : Config) : List Act :=
  [Act.startDispatcher cfg, .openContext] ++ Act.elect 0 ++ Act.accept 1 (.sample ⟨7⟩ "k") ++
    [Act.engage (.sample ⟨9⟩)] ++ Act.refresh 0 ++ [Act.release ⟨9⟩ "operator" 0] ++
    Act.refresh 0 ++ [Act.task 1 {}]

/-- The drain claims the message, sends it, and claims nothing. -/
def drainedBacklog : List Act :=
  releaseOf .sample ++ [Act.task 2 {}, .claim 2 ⟨7⟩] ++ List.replicate 16 (Act.task 2 {})

/-- The release can go on in this state. -/
def World.released (w : World) : Bool :=
  (w.tasks[1]?.any fun task => task.kind = .release (.sample ⟨9⟩) && task.pc matches .awaiting _) &&
    (@World.step .sample w (.task 1 {})).isSome

theorem release_clears_drainedBacklog :
    ∃ (w w' : World) (task : Task) (handles : List Nat),
      Run.Steps (@World.step .sample) (@drainsSeeAll .sample · ·) .empty drainedBacklog w ∧
      w.tasks[1]? = some task ∧ task.kind = .release (.sample ⟨9⟩) ∧
      task.pc = .awaiting handles ∧ @World.step .sample w (.task 1 {}) = some w' ∧
      .drained task.owner ⟨9⟩ ∈ w'.log ∧
      ∃ cfg, w.config task.owner = some cfg ∧ ∀ channel ∈ cfg.channels,
        ∃ i ∈ handles, Run.Passed (@World.step .sample) (@drainsSeeAll .sample · ·)
          (@FindsCleared .sample i task.owner channel (.sample ⟨9⟩)) .empty drainedBacklog w := by
  obtain ⟨w, h, hp⟩ := Run.Steps.exists_of_checked (@World.step .sample) (@drainsSeeAll .sample)
    .empty drainedBacklog World.released (by decide +kernel)
  obtain ⟨hp, hs⟩ := Bool.and_eq_true_iff.1 hp
  obtain ⟨task, ht, hp⟩ := (Option.any_eq_true _ _).1 hp
  obtain ⟨w', hs⟩ := Option.isSome_iff_exists.1 hs
  obtain ⟨hk, hpc⟩ := Bool.and_eq_true_iff.1 hp
  obtain ⟨handles, hpc⟩ : ∃ handles, task.pc = .awaiting handles := by
    cases h : task.pc <;> rw [h] at hpc <;> first | exact ⟨_, rfl⟩ | cases hpc
  exact ⟨w, w', task, handles, h, ht, of_decide_eq_true hk, hpc, hs,
    @release_clears .sample _ _ _ _ _ _ _ _ _ World.initial_empty World.switchesInOrder_empty h ht
      (of_decide_eq_true hk) hpc hs⟩

/-- With the rate 0 the drain claims nothing and ends, and the channel loop has the message. -/
def rateZero : List Act :=
  releaseOf { Config.sample with releaseRate := 0 } ++
    [Act.task 2 {}, .task 2 {}, .task 1 {}, .task 0 {}] ++ Act.claimRow 0 ⟨7⟩

/-- While there is a drain, the message is due and not leased, and no switch is engaged. -/
def World.backlogged (w : World) : Bool :=
  w.tasks.all (fun task => !(task.kind matches .drain _ _)) ||
    ((w.switches 0 .active).isEmpty && w.db.outbox.rows.any fun r =>
      r.channel = "sms" && r.nextAttemptAt ≤ 0 && r.leasedUntil.isNone &&
        @KillSwitch.matchesRow .sample (.sample ⟨9⟩) r)

/-- A channel with a backlog is not cleared. -/
theorem not_cleared_of_backlogged {w : World} (h : w.backlogged = true) {i : Nat} {pc : Pc}
    (hi : w.tasks[i]? = some ⟨0, .drain "sms" (.sample ⟨9⟩), pc⟩) {now : Time} (hn : 0 ≤ now) :
    ¬ @Cleared .sample w 0 "sms" (.sample ⟨9⟩) now := by
  intro hc
  rcases or_eq_true_iff.1 h with h | h
  · cases all_eq_true.1 h _ (mem_of_getElem? hi)
  · simp only [and_eq_true, List.isEmpty_iff, List.any_eq_true, decide_eq_true_eq,
      isNone_iff_eq_none] at h
    obtain ⟨hnone, r, hr, ⟨⟨hch, hdue⟩, hlease⟩, hm⟩ := h
    obtain ⟨s', hs', -⟩ := hc r hr hch (hdue.trans hn) hlease hm
    rw [hnone] at hs'
    cases hs'

/-- The switch leaves `draining` though there was a row of its backlog all the time, which the loop
claims. -/
theorem backlog_left_rateZero :
    ∃ w, Run.Steps (@World.step .sample)
        (fun w _ => ∀ (i : Nat) (pc : Pc),
          w.tasks[i]? = some ⟨0, .drain "sms" (.sample ⟨9⟩), pc⟩ →
          ∀ now, 0 ≤ now → ¬ @Cleared .sample w 0 "sms" (.sample ⟨9⟩) now)
        .empty rateZero w ∧
      .drained 0 ⟨9⟩ ∈ w.log ∧ .leased 0 0 [⟨7⟩] ∈ w.log := by
  obtain ⟨w, h, hp⟩ := Run.Steps.exists_of_checked (@World.step .sample)
    (fun w _ => w.backlogged) .empty rateZero
    (fun w => .drained 0 ⟨9⟩ ∈ w.log && .leased 0 0 [⟨7⟩] ∈ w.log) (by decide +kernel)
  obtain ⟨hd, hl⟩ := Bool.and_eq_true_iff.1 hp
  exact ⟨w, h.mono fun w _ hb i pc hi now hn => not_cleared_of_backlogged hb hi hn,
    of_decide_eq_true hd, of_decide_eq_true hl⟩

end Messgr
