import Messgr.Dispatcher.Registry
import Messgr.Lib.Indexed
import Messgr.Lib.Observer

/-!
# Switches as the hosts observe them

Every host is an observer of two registries, the tenant's switches and those of the platform that
apply to it: `World.observer` is the world as one host sees it, and `Observed.step` says that every
step of the world is for each host a step of `Observer`. So what observers guarantee holds of the
caches in every run (`switching_of_steps`).
-/

namespace Messgr

open List Option Table World ActiveSet
open Indexed (All)

/-! ## Hosts as observers -/

/-- What a refresh under way has read of a tier. -/
def RefreshPc.read : RefreshPc → Tier → Option (Set KillSwitch)
  | .tenantRead fresh, .tenant | .bothRead fresh _, .tenant => some {s | s ∈ fresh}
  | .bothRead _ (some rows), .platform => some {s | s ∈ rows.map (·.asKillSwitch)}
  | _, _ => none

/-- The switches that a refresh found released and has still to handle. -/
def RefreshPc.released : RefreshPc → List KillSwitch
  | .delta _ released => released
  | _ => []

namespace World

/-- Whether a refresh of a host has read a tier. -/
def refreshed (w : World) (h : Nat) : Tier → Bool
  | .tenant => .refreshed h true ∈ w.log || .refreshed h false ∈ w.log
  | .platform => .refreshed h true ∈ w.log

/-- The world as one host sees it. -/
def observer (w : World) (h : Nat) (host : Host) : Observer.State KillSwitch Tier where
  known := w.knownSwitches
  live := w.liveSwitches
  cache := {s | s ∈ host.cache.switches}
  read := host.refresh.read
  refreshed := {tier | w.refreshed h tier = true}
  seen := {s | .seenEngaged h s ∈ w.log}
  hold := {s | s.onQueued = .hold ∧ host.dispatcher.isSome = true}
  pending := {s | s ∈ host.refresh.released}
  draining := {s | ∃ table, host.dispatcher.map (·.draining) = some table ∧ s ∈ table}
  drained := {s | .drained h s.id ∈ w.log}

end World

/-- The entries of the log that are about the cache of a host. -/
def Obs.ofHost : Obs → Option Nat
  | .refreshed h _ | .seenEngaged h _ | .drained h _ => some h
  | _ => none

/-- A host observes the switches, and its cache knows which ones are the platform's. -/
structure Observed (w : World) (h : Nat) (host : Host) : Prop where
  inv : Observer.Inv (w.observer h host)
  tagged : ∀ s ∈ host.cache.switches, s.id ∈ host.cache.platformIds ↔ s ∈ w.knownSwitches .platform

/-- The tables are in order, every host observes them, and the log is about known hosts. -/
structure Switching (w : World) : Prop where
  tables : w.SwitchesInOrder
  hosts : All (Observed w) w.hosts
  log : ∀ o ∈ w.log, ∀ h, o.ofHost = some h → h < w.hosts.length

/-- A step of the world as one of its hosts takes part in it. -/
structure Observes (w w' : World) (h : Nat) (host host' : Host) : Prop where
  step : Observer.Step (w.observer h host) (w'.observer h host')
  tagged : ∀ s ∈ host'.cache.switches,
    s.id ∈ host'.cache.platformIds ↔ s ∈ w'.knownSwitches .platform
  dispatcher : host'.dispatcher.isSome = host.dispatcher.isSome

section
variable {w w' : World} {h : Nat} {host host' : Host} {a : Act} {obs : List Obs}

theorem World.SameSwitches.known (hT : w.SameSwitches w') : w'.knownSwitches = w.knownSwitches := by
  funext tier
  rw [World.knownSwitches, hT.switchRows]
  rfl

theorem World.SameSwitches.live (hT : w.SameSwitches w') : w'.liveSwitches = w.liveSwitches := by
  funext tier
  rw [World.liveSwitches, hT.switchRows]
  rfl

/-- A step that leaves alone what a host observes. -/
theorem Observed.frame (ho : Observed w h host) (hT : w.SameSwitches w')
    (hlog : ∀ o : Obs, o.ofHost = some h → (o ∈ w'.log ↔ o ∈ w.log))
    (hcache : host'.cache = host.cache) (hread : host'.refresh.read = host.refresh.read)
    (hreleased : host'.refresh.released = host.refresh.released)
    (hdrain : host'.dispatcher.map (·.draining) = host.dispatcher.map (·.draining)) :
    Observes w w' h host host' := by
  have hsome : host'.dispatcher.isSome = host.dispatcher.isSome := by
    simpa using congrArg Option.isSome hdrain
  have hrefreshed : w'.refreshed h = w.refreshed h := by
    funext tier
    cases tier <;> simp only [World.refreshed, hlog (.refreshed h _) rfl]
  have hobs : w'.observer h host' = w.observer h host := by
    simp only [World.observer, hT.known, hT.live, hcache, hread, hreleased, hdrain, hsome,
      hrefreshed, hlog (.seenEngaged h _) rfl, hlog (.drained h _) rfl]
  refine ⟨hobs ▸ .idle, ?_, hsome⟩
  rw [hcache, hT.known]
  exact ho.tagged

/-- The tables change. -/
theorem Observed.tables (ho : Observed w h host) (hi' : w'.SwitchesInOrder) (he : w.Evolves w')
    (hlog : w'.log = w.log) : Observes w w' h host host := by
  have hobs : w'.observer h host =
      { w.observer h host with known := w'.knownSwitches, live := w'.liveSwitches } := by
    simp only [World.observer, World.refreshed, hlog]
  refine ⟨hobs ▸ .registry he.known (fun _ _ => he.live) hi'.live_subset_known
    fun _ _ _ ht hu => (hi'.known_eq_of_id ht hu rfl).1, fun s hs => ?_, rfl⟩
  rw [ho.tagged s hs]
  refine ⟨fun hp => he.known _ hp, fun hp => ?_⟩
  obtain ⟨tier, ht⟩ := ho.inv.cache_known s hs
  cases (hi'.known_eq_of_id hp (he.known tier ht) rfl).1
  exact ht

/-! ### The swap -/

/-- The platform entries that a swap takes in have their ids among the platform's. -/
theorem ActiveSet.id_mem_of_mem_platformEntries {guard : ActiveSet}
    {rows : Option (List PlatformKillSwitch)} {s : KillSwitch}
    (hs : s ∈ (guard.platformEntries rows).1) : s.id ∈ (guard.platformEntries rows).2 := by
  cases rows with
  | some rows =>
    obtain ⟨p, hp, rfl⟩ := mem_map.1 hs
    exact mem_map_of_mem hp
  | none => exact (mem_carried.1 hs).2

section
variable {fresh : List KillSwitch} {rows : Option (List PlatformKillSwitch)} {s : KillSwitch}

/-- The tiers that a swap adds to those refreshed were read. -/
theorem Observed.read_of_refreshed (pc : host.refresh = .bothRead fresh rows)
    (hlog : w'.log = w.log ++ .refreshed h rows.isSome ::
      (host.cache.swap fresh rows).1.newlyEngaged.map (.seenEngaged h)) {tier : Tier}
    (ht : w'.refreshed h tier = true) :
    w.refreshed h tier = true ∨ host.refresh.read tier ≠ none := by
  rw [pc]
  cases tier with
  | tenant => exact .inr (some_ne_none _)
  | platform =>
    simp only [World.refreshed, hlog, decide_eq_true_eq, mem_append, mem_cons,
      Obs.refreshed.injEq, true_and, List.mem_map, reduceCtorEq, and_false, exists_false,
      or_false] at ht ⊢
    refine ht.imp id fun ht => ?_
    obtain ⟨rows, rfl⟩ := isSome_iff_exists.1 ht.symm
    exact some_ne_none _

variable (ho : Observed w h host) (hi : w.SwitchesInOrder)
variable (pc : host.refresh = .bothRead fresh rows)
include ho pc

/-- The platform entries that a swap takes in are switches of the platform. -/
theorem Observed.known_of_mem_platformEntries (hs : s ∈ (host.cache.platformEntries rows).1) :
    s ∈ w.knownSwitches .platform := by
  cases rows with
  | some rows => exact ho.inv.read_known .platform _ (by simp [World.observer, pc]; rfl) hs
  | none =>
    obtain ⟨hs, hid⟩ := mem_carried.1 hs
    exact (ho.tagged s hs).1 hid

/-- What a swap takes in, in the terms of observers. -/
theorem Observed.swapped_iff :
    (w.observer h host).Swapped s ↔ s ∈ host.cache.merged fresh rows := by
  have htenant : (w.observer h host).next .tenant = {s | s ∈ fresh} :=
    Observer.State.next_of_read (congrArg (·.read .tenant) pc)
  have hplatform : s ∈ (w.observer h host).next .platform ↔
      s ∈ (host.cache.platformEntries rows).1 := by
    have hread : (w.observer h host).read .platform = RefreshPc.read _ .platform :=
      congrArg (·.read .platform) pc
    cases rows with
    | some rows =>
      rw [Observer.State.next_of_read hread]
      exact .rfl
    | none =>
      rw [Observer.State.next_of_none hread, ActiveSet.platformEntries, mem_carried]
      exact and_congr_right fun hs => (ho.tagged s hs).symm
  rw [ActiveSet.merged, mem_append, ← hplatform]
  constructor
  · intro h
    obtain ⟨tier, ht⟩ := h
    cases tier with
    | tenant =>
      rw [htenant] at ht
      exact .inl ht
    | platform => exact .inr ht
  · intro h
    rcases h with hs | hs
    · exact ⟨.tenant, htenant ▸ hs⟩
    · exact ⟨.platform, hs⟩

include hi

/-- An entry that a swap takes in is the only switch with its id. -/
theorem Observed.eq_of_mem_merged (hs : s ∈ host.cache.merged fresh rows) {r : KillSwitch}
    (hr : ∃ tier, r ∈ w.knownSwitches tier) (hid : s.id = r.id) : s = r := by
  obtain ⟨tier, ht⟩ := ho.inv.known_of_swapped ((ho.swapped_iff pc).2 hs)
  obtain ⟨tier', hr⟩ := hr
  exact (hi.known_eq_of_id ht hr hid).2

/-- The new set of a swap has all it takes in. -/
theorem Observed.mem_swap :
    s ∈ (host.cache.swap fresh rows).2.switches ↔ s ∈ host.cache.merged fresh rows := by
  refine ⟨mem_of_mem_ofList, fun hs => ?_⟩
  obtain ⟨b, hb, hid⟩ := exists_key_ofList KillSwitch.id hs
  have hk := ho.inv.known_of_swapped ((ho.swapped_iff pc).2 hs)
  rwa [ho.eq_of_mem_merged hi pc (mem_of_mem_ofList hb) hk hid] at hb

/-- The entries of the new set that are tagged as the platform's are its switches. -/
theorem Observed.tagged_swap (hs : s ∈ (host.cache.swap fresh rows).2.switches) :
    s.id ∈ (host.cache.swap fresh rows).2.platformIds ↔ s ∈ w.knownSwitches .platform := by
  have hm := (ho.mem_swap hi pc).1 hs
  have hk := ho.inv.known_of_swapped ((ho.swapped_iff pc).2 hm)
  constructor
  · intro hid
    obtain ⟨b, hb, hbid⟩ := exists_platformEntry hid
    rw [← ho.eq_of_mem_merged hi pc (mem_append_right _ hb) hk hbid]
    exact ho.known_of_mem_platformEntries pc hb
  · intro hp
    rcases mem_append.1 hm with hf | he
    · -- no switch is in both tiers
      have ht : s ∈ w.knownSwitches .tenant :=
        ho.inv.read_known .tenant _ (congrArg (·.read .tenant) pc) hf
      cases (hi.known_eq_of_id hp ht rfl).1
    · exact id_mem_of_mem_platformEntries he

/-- What leaves the set with a swap is in its delta. -/
theorem Observed.mem_released (hs : s ∈ host.cache.switches)
    (hc : s ∉ (host.cache.swap fresh rows).2.switches) :
    s ∈ (host.cache.swap fresh rows).1.released := by
  refine mem_filter.2 ⟨hs, decide_eq_true fun hid => hc ?_⟩
  obtain ⟨b, hb, hbid⟩ := mem_map.1 hid
  refine (ho.mem_swap hi pc).2 ?_
  rwa [← ho.eq_of_mem_merged hi pc hb (ho.inv.cache_known s hs) hbid]

/-- A refresh swaps in what it read. -/
theorem Observed.swap (hT : w.SameSwitches w') (hhost : host' = { host with
      cache := (host.cache.swap fresh rows).2
      refresh := .delta (host.cache.swap fresh rows).1.newlyEngaged
        (host.cache.swap fresh rows).1.released })
    (hlog : w'.log = w.log ++ .refreshed h rows.isSome ::
      (host.cache.swap fresh rows).1.newlyEngaged.map (.seenEngaged h)) :
    Observes w w' h host host' := by
  have hdrained : ∀ id, .drained h id ∈ w'.log ↔ .drained h id ∈ w.log := by
    intro id
    simp [hlog]
  have hobs : w'.observer h host' = { w.observer h host with
      cache := {s | s ∈ (host.cache.swap fresh rows).2.switches}, read := fun _ => none
      refreshed := {tier | w'.refreshed h tier = true}, seen := {s | .seenEngaged h s ∈ w'.log}
      pending := {s | s ∈ (host.cache.swap fresh rows).1.released} } := by
    rw [hhost]
    simp only [World.observer, hT.known, hT.live, hdrained]
    rfl
  refine ⟨hobs ▸ .swap ?_ (fun s => ?_) (fun s hs hh hc => ?_) (fun s hs => ?_) (fun s hs => ?_)
    (fun s hs => ?_) fun tier ht => ?_, fun s hs => ?_, by rw [hhost]⟩
  · -- nothing is pending before a swap
    show {s | s ∈ host.refresh.released} = ∅
    rw [pc]
    exact Set.eq_empty_of_forall_notMem fun s hs => by cases hs
  · exact (ho.mem_swap hi pc).trans (ho.swapped_iff pc).symm
  · exact ho.mem_released hi pc hs hc
  · exact (mem_filter.1 hs).1
  · rw [Set.mem_ofPred_eq, hlog]
    exact mem_append_left _ hs
  · rw [Set.mem_ofPred_eq, hlog] at hs
    rcases mem_append.1 hs with hs | hs
    · exact .inl hs
    · refine .inr ((ho.mem_swap hi pc).2 ?_)
      simp only [mem_cons, reduceCtorEq, List.mem_map, Obs.seenEngaged.injEq, true_and,
        exists_eq_right, false_or] at hs
      exact (mem_filter.1 hs).1
  · exact Observed.read_of_refreshed pc hlog ht
  · rw [hhost] at hs ⊢
    rw [hT.known]
    exact ho.tagged_swap hi pc hs

end

/-! ### The other steps -/

/-- A refresh reads a tier. -/
theorem Observed.read (ho : Observed w h host) {pc : RefreshPc} (hT : w.SameSwitches w')
    (hhost : host' = { host with refresh := pc }) (hlog : w'.log = w.log)
    (hreleased : pc.released = host.refresh.released)
    (hreads : ∀ tier l, pc.read tier = some l →
      host.refresh.read tier = some l ∨ l = w.liveSwitches tier) :
    Observes w w' h host host' := by
  subst hhost
  have hobs : w'.observer h { host with refresh := pc } =
      { w.observer h host with read := pc.read } := by
    simp only [World.observer, World.refreshed, hT.known, hT.live, hlog, hreleased]
  refine ⟨hobs ▸ .read hreads, ?_, rfl⟩
  rw [hT.known]
  exact ho.tagged

/-- `on_delta` puts a switch that was released among those that drain. -/
theorem Observed.handOver (ho : Observed w h host) (hi : w.SwitchesInOrder) {s : KillSwitch}
    {released : List KillSwitch} (pc : host.refresh = .delta [] (s :: released))
    (hT : w.SameSwitches w') (hlog : w'.log = w.log) (hhost : host' = { host with
      refresh := .delta [] released
      dispatcher := host.dispatcher.map (·.drain s) }) : Observes w w' h host host' := by
  subst hhost
  have hreleased : (w.observer h host).pending = {r | r ∈ s :: released} := by
    show {r | r ∈ host.refresh.released} = _
    rw [pc]
    rfl
  have hread : (RefreshPc.delta [] released).read = host.refresh.read := by
    rw [pc]
    rfl
  have hobs : w'.observer h { host with
      refresh := .delta [] released
      dispatcher := host.dispatcher.map (·.drain s) } = { w.observer h host with
      pending := {r | r ∈ released}
      draining := {r | ∃ table, (host.dispatcher.map (·.drain s)).map (·.draining) = some table ∧
        r ∈ table} } := by
    simp only [World.observer, World.refreshed, hT.known, hT.live, hlog, hread, isSome_map]
    rfl
  refine ⟨hobs ▸ .handOver (fun r hr => ?_) (fun r hr hh => ?_) (fun r hr hk => ?_), ?_, by simp⟩
  · rw [hreleased]
    exact mem_cons_of_mem _ hr
  · rw [hreleased] at hr
    rcases mem_cons.1 hr with rfl | hr
    · obtain ⟨hhold, hsome⟩ := hh
      obtain ⟨d, hd⟩ := isSome_iff_exists.1 hsome
      refine .inr ⟨d.draining.upsert r, ?_, mem_upsert.2 (.inl rfl)⟩
      simp [hd, Dispatcher.drain, hhold]
    · exact .inl hr
  · obtain ⟨table, ht, hr⟩ := hr
    obtain ⟨d, hd, rfl⟩ := map_eq_some_iff.1 ht
    refine ⟨(d.drain s).draining, by simp [hd], ?_⟩
    rw [Dispatcher.drain]
    split
    · refine mem_upsert.2 ?_
      by_cases hid : r.id = s.id
      · -- the entry that the insertion replaces is the same switch
        obtain ⟨tier, hk⟩ := hk
        obtain ⟨tier', hs⟩ := ho.inv.pending_known s (hreleased ▸ mem_cons_self)
        exact .inl (hi.known_eq_of_id hk hs hid).2
      · exact .inr ⟨hr, hid⟩
    · exact hr
  · rw [hT.known]
    exact ho.tagged

/-- A release drain ends. -/
theorem Observed.drained (ho : Observed w h host) {d : Dispatcher} {id : Uuid}
    (hd : host.dispatcher = some d) (hT : w.SameSwitches w')
    (hlog : w'.log = w.log ++ [.drained h id]) (hhost : host' = { host with
      dispatcher := some { d with draining := d.draining.delete (·.id = id) } }) :
    Observes w w' h host host' := by
  subst hhost
  have hsame : ∀ o : Obs, (∀ id, o ≠ .drained h id) → (o ∈ w'.log ↔ o ∈ w.log) := by
    intro o ho
    simp [hlog, ho]
  have hrefreshed : w'.refreshed h = w.refreshed h := by
    funext tier
    cases tier <;> simp [World.refreshed, hsame]
  have hobs : w'.observer h { host with
      dispatcher := some { d with draining := d.draining.delete (·.id = id) } } =
      { w.observer h host with
        draining := {s | s ∈ d.draining.delete (·.id = id)}
        drained := {s | .drained h s.id ∈ w'.log} } := by
    simp [World.observer, hT.known, hT.live, hrefreshed, hsame, hd]
  refine ⟨hobs ▸ .drained (fun s hs => ?_) (fun s hs => ?_), ?_, by simp [hd]⟩
  · obtain ⟨table, ht, hs⟩ := hs
    rw [hd] at ht
    cases ht
    by_cases hid : s.id = id
    · refine .inr ?_
      simp [hlog, hid]
    · exact .inl (by simp [hs, hid])
  · rw [Set.mem_ofPred_eq, hlog]
    exact mem_append_left _ hs
  · rw [hT.known]
    exact ho.tagged

/-- The steps of a host's refresh loop. -/
theorem Observed.refreshStep (ho : Observed w h host) (hi : w.SwitchesInOrder)
    (alive : w.host? h = some host) (hs : w.RefreshStep h host a w') :
    ∃ host', w'.hosts[h]? = some host' ∧ Observes w w' h host host' := by
  have hget := (host?_eq_some.1 alive).1
  have hset : ∀ host', (w.hosts.set h host')[h]? = some host' := fun host' =>
    getElem?_set_self (List.getElem?_eq_some_iff.1 hget).1
  cases hs with
  | failed => exact ⟨host, hget, ho.frame ⟨rfl, rfl, rfl⟩ (fun _ _ => .rfl) rfl rfl rfl rfl⟩
  | tenant pc =>
    refine ⟨_, hset _, ho.read ⟨rfl, rfl, rfl⟩ rfl rfl (by rw [pc]; rfl) fun tier l hl => ?_⟩
    cases tier with
    | tenant =>
      cases hl
      refine .inr (Set.ext fun s => ?_)
      exact mem_listActive
    | platform => cases hl
  | @platform ok fresh platformRows pc rows =>
    refine ⟨_, hset _, ho.read ⟨rfl, rfl, rfl⟩ rfl rfl (by rw [pc]; rfl) fun tier l hl => ?_⟩
    cases tier with
    | tenant =>
      cases hl
      exact .inl (by rw [pc]; rfl)
    | platform =>
      cases platformRows with
      | none => cases hl
      | some l =>
        cases hl
        cases rows l rfl
        exact .inr (Set.ext fun s => mem_map.trans mem_liveSwitches_platform.symm)
  | @swapped fresh platformRows delta cache pc swap =>
    obtain rfl : (host.cache.swap fresh platformRows).1 = delta := congrArg Prod.fst swap
    obtain rfl : (host.cache.swap fresh platformRows).2 = cache := congrArg Prod.snd swap
    exact ⟨_, hset _, ho.swap hi pc ⟨rfl, rfl, rfl⟩ rfl rfl⟩
  | engaged pc | handled pc =>
    exact ⟨_, hset _, ho.frame ⟨rfl, rfl, rfl⟩ (fun _ _ => .rfl) rfl (by rw [pc]; rfl)
      (by rw [pc]; rfl) rfl⟩
  | released pc => exact ⟨_, hset _, ho.handOver hi pc ⟨rfl, rfl, rfl⟩ rfl rfl⟩

/-- New entries of the log that are not about a host. -/
theorem mem_log_append {log : List Obs} (hobs : ∀ o ∈ obs, o.ofHost ≠ some h) (o : Obs)
    (ho : o.ofHost = some h) : o ∈ log ++ obs ↔ o ∈ log := by
  rw [mem_append]
  exact or_iff_left fun hm => hobs o hm ho

/-- A step that does not touch a host. -/
theorem Observed.other (ho : Observed w h host) (hh : w'.hosts[h]? = some host)
    (hT : w.SameSwitches w') (hlog : w'.log = w.log ++ obs) (hobs : ∀ o ∈ obs, o.ofHost ≠ some h) :
    ∃ host', w'.hosts[h]? = some host' ∧ Observes w w' h host host' :=
  ⟨host, hh, ho.frame hT (hlog ▸ mem_log_append hobs) rfl rfl rfl rfl⟩

/-- A step that touches one host, but neither its cache nor what depends on it. -/
theorem Observed.touched (ho : Observed w h host) {p : Nat} {host0 host1 : Host}
    (hh : w.hosts[h]? = some host) (alive : w.host? p = some host0)
    (hhosts : w'.hosts = w.hosts.set p host1) (hT : w.SameSwitches w')
    (hlog : w'.log = w.log ++ obs) (hobs : ∀ o ∈ obs, o.ofHost ≠ some h)
    (hcache : host1.cache = host0.cache) (hrefresh : host1.refresh = host0.refresh)
    (hdrain : host1.dispatcher.map (·.draining) = host0.dispatcher.map (·.draining)) :
    ∃ host', w'.hosts[h]? = some host' ∧ Observes w w' h host host' := by
  have hlt : h < w.hosts.length := (List.getElem?_eq_some_iff.1 hh).1
  by_cases hp : p = h
  · subst hp
    cases hh.symm.trans (host?_eq_some.1 alive).1
    refine ⟨host1, by rw [hhosts, getElem?_set_self hlt], ?_⟩
    exact ho.frame hT (hlog ▸ mem_log_append hobs) hcache (by rw [hrefresh]) (by rw [hrefresh])
      hdrain
  · exact ho.other (by rw [hhosts, getElem?_set_ne hp, hh]) hT hlog hobs

/-- The steps of another host's refresh loop. -/
theorem Observed.otherRefresh (ho : Observed w h host) {p : Nat} {host0 : Host}
    (hh : w.hosts[h]? = some host) (hp : p ≠ h) (hs : w.RefreshStep p host0 a w') :
    ∃ host', w'.hosts[h]? = some host' ∧ Observes w w' h host host' := by
  have hset : ∀ {host1}, (w.hosts.set p host1)[h]? = some host := by
    intro host1
    rw [getElem?_set_ne hp, hh]
  have hnil : w.log = w.log ++ [] := (append_nil _).symm
  cases hs with
  | failed => exact ho.other hh ⟨rfl, rfl, rfl⟩ hnil (by simp)
  | tenant | platform | engaged | released | handled =>
    exact ho.other hset ⟨rfl, rfl, rfl⟩ hnil (by simp)
  | swapped pc swap =>
    refine ho.other hset ⟨rfl, rfl, rfl⟩ rfl fun o ho => ?_
    rcases mem_cons.1 ho with rfl | ho
    · simpa [Obs.ofHost] using hp
    · obtain ⟨s, -, rfl⟩ := mem_map.1 ho
      simpa [Obs.ofHost] using hp

/-- A new host has observed nothing. -/
theorem observed_new (hi : w.SwitchesInOrder) (hlog : ∀ o ∈ w.log, o.ofHost ≠ some h)
    (hnew : (∃ cfg, host = .newDispatcher cfg) ∨ host = .newContext) : Observed w h host := by
  obtain ⟨hcache, hrefresh⟩ : host.cache = .new ∧ host.refresh = .idle := by
    rcases hnew with ⟨cfg, rfl⟩ | rfl <;> exact ⟨rfl, rfl⟩
  have hempty : ∀ s, s ∉ host.cache.switches := by
    intro s hs
    rw [hcache] at hs
    exact not_mem_empty s hs
  have hread : ∀ tier, host.refresh.read tier = none := by
    intro tier
    rw [hrefresh]
    rfl
  have hpending : ∀ s, s ∉ host.refresh.released := by
    intro s hs
    rw [hrefresh] at hs
    cases hs
  have hseen : ∀ s, .seenEngaged h s ∉ w.log := fun s hs => hlog _ hs rfl
  refine ⟨⟨hi.live_subset_known, fun _ _ _ ht hu => (hi.known_eq_of_id ht hu rfl).1,
    fun s hs => absurd hs (hempty s), fun tier l hl => ?_, fun s hs => absurd hs (hpending s),
    fun s hs => absurd hs (hseen s), fun tier l hl => ?_, fun s hs => absurd hs (hseen s),
    fun s hs => absurd hs (hseen s)⟩, fun s hs => absurd hs (hempty s)⟩
  · cases (hread tier).symm.trans hl
  · cases (hread tier).symm.trans hl

/-- What holds before there is any process. -/
theorem switching_initial (h0 : w.Initial) (hi : w.SwitchesInOrder) : Switching w :=
  ⟨hi, h0.hosts ▸ All.nil, fun _ ho => absurd (h0.log ▸ ho) not_mem_nil⟩

variable [UuidCrate]

/-- The steps of tasks. -/
theorem Observed.taskStep (ho : Observed w h host) {t : Nat} {env : Env}
    (hh : w.hosts[h]? = some host) (hs : w.TaskStep t env w') :
    ∃ host', w'.hosts[h]? = some host' ∧ Observes w w' h host host' := by
  have hT := sameSwitches_of_taskStep hs
  cases hs with
  | looped | failed | batchDone => exact ho.other hh hT rfl (by simp)
  | lost | claimed => exact ho.other hh hT rfl (by simp [Obs.ofHost])
  | passed runs pc head =>
    refine ho.other hh hT rfl fun o hm => ?_
    obtain ⟨rfl, -⟩ | ⟨status, rfl⟩ := (passObs_cases hm).2 <;> simp [Obs.ofHost]
  | spawned runs kind pc => exact ho.other hh hT (append_nil _).symm (by simp)
  | @drained task host0 d s handles runs kind pc =>
    by_cases hp : task.owner = h
    · subst hp
      cases hh.symm.trans (host?_eq_some.1 runs.alive).1
      exact ⟨_, getElem?_set_self (List.getElem?_eq_some_iff.1 hh).1,
        ho.drained runs.dispatcher hT rfl rfl⟩
    · refine ho.other ?_ hT rfl (by simpa [Obs.ofHost] using hp)
      exact (getElem?_set_ne hp).trans hh

/-- Every step of the world is a step of every host as an observer. -/
theorem Observed.step (ho : Observed w h host) (hi : w.SwitchesInOrder) {a : Act}
    (hh : w.hosts[h]? = some host) (hs : w.Step a w') :
    ∃ host', w'.hosts[h]? = some host' ∧ Observes w w' h host host' := by
  have hadd : ∀ {hosts}, (w.hosts ++ hosts)[h]? = some host := by
    intro hosts
    rw [getElem?_append_left (List.getElem?_eq_some_iff.1 hh).1, hh]
  have hnil : w.log = w.log ++ [] := (append_nil _).symm
  obtain ⟨he, hi'⟩ := evolves_of_step hi hs
  cases hs with
  | started | opened => exact ho.other hadd ⟨rfl, rfl, rfl⟩ hnil (by simp)
  | crashed alive =>
    exact ho.touched hh alive rfl ⟨rfl, rfl, rfl⟩ hnil (by simp) rfl rfl rfl
  | acquired alive dispatcher phase =>
    exact ho.touched hh alive rfl ⟨rfl, rfl, rfl⟩ rfl (by simp [Obs.ofHost]) rfl rfl
      (by simp [dispatcher])
  | swept alive dispatcher | led alive dispatcher =>
    exact ho.touched hh alive rfl ⟨rfl, rfl, rfl⟩ hnil (by simp) rfl rfl (by simp [dispatcher])
  | @refresh p host0 _ _ alive step =>
    by_cases hp : p = h
    · subst hp
      cases hh.symm.trans (host?_eq_some.1 alive).1
      exact ho.refreshStep hi alive step
    · exact ho.otherRefresh hh hp step
  | task step => exact ho.taskStep hh step
  | admitted | cancelled | wasCancelled =>
    exact ho.other hh ⟨rfl, rfl, rfl⟩ rfl (by simp [Obs.ofHost])
  | inserted fresh insert =>
    rcases insertTransactional_ok insert with ⟨rfl, -⟩ | ⟨-, -, -, -, hk⟩
    · exact ho.other hh ⟨rfl, rfl, rfl⟩ hnil (by simp)
    · exact ho.other hh ⟨hk, rfl, rfl⟩ hnil (by simp)
  | engaged | released | engagedPlatform | releasedPlatform =>
    exact ⟨host, hh, ho.tables hi' he rfl⟩
  | dropped | refused | insertFailed | cancelMissed | notCancelled | gates =>
    exact ho.other hh ⟨rfl, rfl, rfl⟩ hnil (by simp)

/-! ## Every run -/

/-- A host that was not there before is new. -/
theorem new_of_step (hs : w.Step a w') (hlt : w.hosts.length ≤ h) (hh : w'.hosts[h]? = some host) :
    (∃ cfg, host = .newDispatcher cfg) ∨ host = .newContext := by
  have hold : ∀ {hosts : List Host}, hosts.length = w.hosts.length → hosts[h]? ≠ some host := by
    intro hosts hlen hsome
    have := (List.getElem?_eq_some_iff.1 hsome).1
    omega
  have hadd : ∀ {new : Host}, (w.hosts ++ [new])[h]? = some host → host = new := by
    intro new hsome
    rw [getElem?_append_right hlt] at hsome
    exact mem_singleton.1 (mem_of_getElem? hsome)
  cases hs with
  | started => exact .inl ⟨_, hadd hh⟩
  | opened => exact .inr (hadd hh)
  | crashed | acquired | swept | led => exact absurd hh (hold length_set)
  | refresh alive step =>
    cases step with
    | failed => exact absurd hh (hold rfl)
    | _ => exact absurd hh (hold length_set)
  | task step =>
    cases step with
    | drained => exact absurd hh (hold length_set)
    | _ => exact absurd hh (hold rfl)
  | _ => exact absurd hh (hold rfl)

/-- What a step adds to the log about a host is about one that there is. -/
theorem ofHost_of_step (hs : w.Step a w') {o : Obs} (ho : o ∈ w'.log) (hh : o.ofHost = some h) :
    o ∈ w.log ∨ ∃ host, w.hosts[h]? = some host := by
  have hadd : ∀ {obs}, o ∈ w.log ++ obs → (∀ o ∈ obs, o.ofHost ≠ some h) → o ∈ w.log := by
    intro obs ho hobs
    exact (mem_log_append hobs o hh).1 ho
  cases hs with
  | acquired | admitted | cancelled | wasCancelled =>
    exact .inl (hadd ho (by simp [Obs.ofHost]))
  | @refresh p host0 _ _ alive step =>
    cases step with
    | swapped pc swap =>
      by_cases hp : p = h
      · exact .inr ⟨host0, hp ▸ (host?_eq_some.1 alive).1⟩
      · refine .inl (hadd ho fun o ho => ?_)
        rcases mem_cons.1 ho with rfl | ho
        · simpa [Obs.ofHost] using hp
        · obtain ⟨s, -, rfl⟩ := mem_map.1 ho
          simpa [Obs.ofHost] using hp
    | _ => exact .inl ho
  | task step =>
    cases step with
    | looped | failed | batchDone => exact .inl (hadd ho (by simp))
    | lost | claimed => exact .inl (hadd ho (by simp [Obs.ofHost]))
    | passed runs pc head =>
      refine .inl (hadd ho fun o hm => ?_)
      obtain ⟨rfl, -⟩ | ⟨status, rfl⟩ := (passObs_cases hm).2 <;> simp [Obs.ofHost]
    | spawned => exact .inl ho
    | @drained task host0 d s handles runs kind pc =>
      by_cases hp : task.owner = h
      · exact .inr ⟨host0, hp ▸ (host?_eq_some.1 runs.alive).1⟩
      · exact .inl (hadd ho (by simpa [Obs.ofHost] using hp))
  | _ => exact .inl ho

/-- Hosts stay. -/
theorem Switching.host_of_step (hw : Switching w) (hs : w.Step a w') (hh : h < w.hosts.length) :
    h < w'.hosts.length := by
  have hget := getElem?_eq_getElem hh
  obtain ⟨host', hh', -⟩ := (hw.hosts h _ hget).step hw.tables hget hs
  exact (List.getElem?_eq_some_iff.1 hh').1

/-- The log is about hosts that were there. -/
theorem Switching.ofHost_lt (hw : Switching w) (hs : w.Step a w') {o : Obs} (ho : o ∈ w'.log)
    (hoh : o.ofHost = some h) : h < w.hosts.length := by
  rcases ofHost_of_step hs ho hoh with ho | ⟨host, hh⟩
  · exact hw.log o ho h hoh
  · exact (List.getElem?_eq_some_iff.1 hh).1

/-- Every step keeps the caches what observers keep. -/
theorem Switching.step (hw : Switching w) {a : Act} (hs : w.step a = some w') : Switching w' := by
  replace hs := step_cases hs
  have hi' := (evolves_of_step hw.tables hs).2
  refine ⟨hi', fun h host' hh' => ?_, fun o ho h hoh => hw.host_of_step hs (hw.ofHost_lt hs ho hoh)⟩
  by_cases hlt : h < w.hosts.length
  · have hget := getElem?_eq_getElem hlt
    have ho := hw.hosts h _ hget
    obtain ⟨host'', hh'', hobs⟩ := ho.step hw.tables hget hs
    cases hh'.symm.trans hh''
    exact ⟨ho.inv.step hobs.step, hobs.tagged⟩
  · exact observed_new hi' (fun o ho hoh => hlt (hw.ofHost_lt hs ho hoh))
      (new_of_step hs (Nat.not_lt.1 hlt) hh')

/-- What the caches keep, they keep in every run. -/
theorem switching_of_steps {C : World → Act → Prop} {as : List Act} (hw : Switching w)
    (hs : Run.Steps World.step C w as w') : Switching w' :=
  hs.inv (fun _ _ _ _ hs hi => hi.step hs) hw

/-- Whichever reads fail, a process has only switches that were engaged, takes each for one of its
table, and keeps one that it has seen while it is engaged. -/
theorem seen_switch_kept {w0 : World} {as : List Act} (h0 : w0.Initial) (hi : w0.SwitchesInOrder)
    (hs : Run.Steps World.step Run.Any w0 as w) (hh : w.hosts[h]? = some host) :
    (∀ s ∈ host.cache.switches,
      s ∈ w.knownSwitches (if s.id ∈ host.cache.platformIds then .platform else .tenant)) ∧
    ∀ s tier, .seenEngaged h s ∈ w.log → s ∈ w.liveSwitches tier → s ∈ host.cache.switches := by
  obtain ⟨hinv, htag⟩ := (switching_of_steps (switching_initial h0 hi) hs).hosts h host hh
  refine ⟨fun s hs => ?_, fun s tier hseen hlive =>
    (hinv.gone s hseen).resolve_right fun hgone => (hgone tier).1 hlive⟩
  split
  · next hid => exact (htag s hs).1 hid
  · next hid =>
    obtain ⟨tier, hk⟩ := hinv.cache_known s hs
    cases tier with
    | tenant => exact hk
    | platform => exact absurd ((htag s hs).2 hk) hid

end

/-- A switch is seen, and a refresh cannot read the switches of the platform. -/
def partialRefresh : List Act :=
  [Act.openContext, .engage (.sample ⟨9⟩)] ++ Act.refresh 0 ++
    [.readTenant 0 true, .readPlatform 0 false, .swap 0]

theorem seen_switch_kept_partialRefresh :
    ∃ w host, Run.Steps (@World.step .sample) Run.Any .empty partialRefresh w ∧
      w.hosts[0]? = some host ∧ .sample ⟨9⟩ ∈ host.cache.switches := by
  obtain ⟨w, hw, hp⟩ := Run.Steps.exists_of_exec (@World.step .sample) .empty partialRefresh
    (fun w => (.seenEngaged 0 (.sample ⟨9⟩) ∈ w.log ∧ .sample ⟨9⟩ ∈ w.switchRows .tenant) ∧
      w.hosts[0]?.isSome) (by decide)
  obtain ⟨⟨hseen, hrow⟩, hh⟩ := of_decide_eq_true hp
  obtain ⟨host, hh⟩ := Option.isSome_iff_exists.1 hh
  exact ⟨w, host, hw, hh, (@seen_switch_kept w 0 host .sample _ _ World.initial_empty
    World.switchesInOrder_empty hw hh).2 _ .tenant hseen ⟨hrow, rfl⟩⟩

end Messgr
