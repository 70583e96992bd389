import Mathlib.Data.List.Induction
import Messgr.KillSwitch.Cache
import Messgr.Lib.Presence

/-!
# The deltas of a refresh

A cache is refreshed again and again, each time from the tenant's table and the platform's, and
either read may fail. Each tier is a set under observation: the tenant tier by every call whose
tenant read succeeds, the platform tier by every call whose two reads succeed. `Tiers` says that the
cache and its deltas are these two observations laid together, and every sequence of calls keeps it
so (`tiers_refreshes`).
-/

namespace Messgr

open List Table
open Presence (Log Delta Observed NeverBack Exact)

/-- What the reads of one refresh meet: the two tables, or a failure. -/
structure RefreshCall where
  tenant : Except SqlError SwitchTable
  platform : Except SqlError PlatformSwitchTable

/-- One call of `refresh_with_platform` with a platform source, as the refresh loop makes it. -/
def RefreshCall.run (c : RefreshCall) (tenantId : Uuid) (a : ActiveSet) :
    Except SqlError (RefreshDelta × ActiveSet) :=
  a.refreshWithPlatform (c.tenant.map listActive)
    (some (c.platform.map (listActiveForTenant · tenantId)))

/-- The cache after a sequence of calls, and the ids of all deltas so far. -/
structure RefreshLog where
  cache : ActiveSet
  newlyEngaged : List Uuid
  released : List Uuid

/-- One call more; a failed one changes nothing and reports nothing. Source:
`src/kill_switch/cache.rs`, the body of `run_refresh_loop`. -/
def RefreshLog.next (tenantId : Uuid) (l : RefreshLog) (c : RefreshCall) : RefreshLog :=
  match c.run tenantId l.cache with
  | .ok (delta, cache) =>
    ⟨cache, l.newlyEngaged ++ delta.newlyEngaged.map (·.id),
      l.released ++ delta.released.map (·.id)⟩
  | .error _ => l

/-- A sequence of calls on a new cache. -/
def refreshes (tenantId : Uuid) (calls : List RefreshCall) : RefreshLog :=
  calls.foldl (RefreshLog.next tenantId) ⟨.new, [], []⟩

/-! ## The two tiers as observed sets -/

/-- The ids a call reads from the tenant's table. -/
def RefreshCall.tenantRead (c : RefreshCall) : Option (Set Uuid) :=
  match c.tenant with
  | .ok t => some {id | id ∈ (listActive t).map (·.id)}
  | .error _ => none

/-- The ids a call reads from the platform's table, which it does after a tenant read that
succeeded. -/
def RefreshCall.platformRead (tenantId : Uuid) (c : RefreshCall) : Option (Set Uuid) :=
  match c.tenant, c.platform with
  | .ok _, .ok p => some {id | id ∈ (listActiveForTenant p tenantId).map (·.id)}
  | _, _ => none

/-- The tenant reads that succeed. -/
def tenantReads (calls : List RefreshCall) : List (Set Uuid) :=
  calls.filterMap RefreshCall.tenantRead

/-- The platform reads that succeed. -/
def platformReads (tenantId : Uuid) (calls : List RefreshCall) : List (Set Uuid) :=
  calls.filterMap (RefreshCall.platformRead tenantId)

theorem tenantReads_append (pre post : List RefreshCall) :
    tenantReads (pre ++ post) = tenantReads pre ++ tenantReads post :=
  filterMap_append

theorem platformReads_append (tenantId : Uuid) (pre post : List RefreshCall) :
    platformReads tenantId (pre ++ post) =
      platformReads tenantId pre ++ platformReads tenantId post :=
  filterMap_append

/-- An id in the active set. -/
def ActiveSet.HasId (a : ActiveSet) (id : Uuid) : Prop := ∃ s ∈ a.switches, s.id = id

/-- The cache and its deltas are the observations of the two tiers laid together. -/
structure Tiers (l : RefreshLog) (tenant platform : Log Uuid) : Prop where
  hasId : ∀ id, l.cache.HasId id ↔ id ∈ tenant.present ∨ id ∈ platform.present
  platformIds : ∀ id, id ∈ l.cache.platformIds ↔ id ∈ platform.present
  newlyEngaged : l.newlyEngaged.Perm (tenant.arrived ++ platform.arrived)
  released : l.released.Perm (tenant.left ++ platform.left)

section
variable {a : ActiveSet} {fresh : List KillSwitch} {rows : Option (List PlatformKillSwitch)}
  {id : Uuid}

theorem find?_isNone_iff : (a.switches.find? id).isNone = true ↔ ¬ a.HasId id := by
  rw [Option.isNone_iff_eq_none]
  constructor
  · rintro h ⟨s, hs, hk⟩
    exact find?_none h hs hk
  · intro h
    by_contra hn
    obtain ⟨s, hs⟩ := Option.ne_none_iff_exists'.1 hn
    exact h ⟨s, find?_some hs⟩

/-- The ids that a refresh swaps in: those of the tenant read and the platform ids. -/
theorem mem_merged_ids :
    id ∈ (a.merged fresh rows).map (·.id) ↔
      id ∈ fresh.map (·.id) ∨ id ∈ (a.platformEntries rows).2 := by
  rw [ActiveSet.merged, map_append, mem_append]
  refine or_congr Iff.rfl ⟨fun h => ?_, fun h => ?_⟩
  · obtain ⟨s, hs, rfl⟩ := mem_map.1 h
    cases rows with
    | some rows =>
      obtain ⟨p, hp, rfl⟩ := mem_map.1 hs
      exact mem_map_of_mem hp
    | none => exact (ActiveSet.mem_carried.1 hs).2
  · obtain ⟨s, hs, rfl⟩ := ActiveSet.exists_platformEntry h
    exact mem_map_of_mem hs

theorem hasId_swap : (a.swap fresh rows).2.HasId id ↔
      id ∈ fresh.map (·.id) ∨ id ∈ (a.platformEntries rows).2 := by
  rw [← mem_merged_ids]
  constructor
  · rintro ⟨s, hs, rfl⟩
    exact mem_map_of_mem (mem_of_mem_ofList hs)
  · intro h
    obtain ⟨s, hs, rfl⟩ := mem_map.1 h
    exact exists_key_ofList KillSwitch.id hs

theorem mem_released_swap {s : KillSwitch} :
    s ∈ (a.swap fresh rows).1.released ↔
      s ∈ a.switches ∧ s.id ∉ fresh.map (·.id) ∧ s.id ∉ (a.platformEntries rows).2 := by
  rw [← not_or, ← mem_merged_ids]
  exact mem_filter.trans (and_congr Iff.rfl decide_eq_true_iff)

/-- A part of the released switches, by id, is without repetition. -/
theorem nodup_released_swap (p : KillSwitch → Bool) :
    (((a.swap fresh rows).1.released.filter p).map (·.id)).Nodup :=
  a.switches.nodup.sublist ((filter_sublist.trans filter_sublist).map _)

end

/-! ## One refresh, tier by tier -/

section
variable {a : ActiveSet} {fresh : List KillSwitch} {rows : Option (List PlatformKillSwitch)}
  {S T P : Set Uuid}

/-- The ids that a refresh with the reads `fresh` and `rows` reports, apart by tier: arrived and
left of the tenant tier, then of the platform tier. -/
def tenantArrived (a : ActiveSet) (fresh : List KillSwitch) : List Uuid :=
  (fresh.filter fun s => (a.switches.find? s.id).isNone).map (·.id)

@[inherit_doc tenantArrived]
def platformArrived (a : ActiveSet) (rows : Option (List PlatformKillSwitch)) : List Uuid :=
  ((a.platformEntries rows).1.filter fun s => (a.switches.find? s.id).isNone).map (·.id)

@[inherit_doc tenantArrived]
def tenantLeft (a : ActiveSet) (fresh : List KillSwitch)
    (rows : Option (List PlatformKillSwitch)) : List Uuid :=
  ((a.swap fresh rows).1.released.filter fun s => !decide (s.id ∈ a.platformIds)).map (·.id)

@[inherit_doc tenantArrived]
def platformLeft (a : ActiveSet) (fresh : List KillSwitch)
    (rows : Option (List PlatformKillSwitch)) : List Uuid :=
  ((a.swap fresh rows).1.released.filter fun s => decide (s.id ∈ a.platformIds)).map (·.id)

theorem newlyEngaged_swap_eq : (a.swap fresh rows).1.newlyEngaged.map (·.id) =
      tenantArrived a fresh ++ platformArrived a rows := by
  simp only [ActiveSet.swap, ActiveSet.merged, filter_append, map_append, tenantArrived,
    platformArrived]

theorem released_swap_perm : ((a.swap fresh rows).1.released.map (·.id)).Perm
      (tenantLeft a fresh rows ++ platformLeft a fresh rows) := by
  rw [tenantLeft, platformLeft, ← map_append]
  exact ((filter_append_perm _ _).symm.trans perm_append_comm).map _

/-- The tenant tier: `S` was seen and `fresh` is now, and no platform id, before or after, is in
them. -/
theorem delta_tenant (hn : (fresh.map KillSwitch.id).Nodup)
    (hS : ∀ id, a.HasId id ↔ id ∈ S ∨ id ∈ a.platformIds)
    (hSP : ∀ id ∈ a.platformIds, id ∉ S ∧ id ∉ fresh.map (·.id))
    (hSP' : ∀ id ∈ (a.platformEntries rows).2, id ∉ S) :
    Delta S {id | id ∈ fresh.map (·.id)} (tenantArrived a fresh) (tenantLeft a fresh rows) where
  nodup_arrived := hn.sublist (filter_sublist.map _)
  nodup_left := nodup_released_swap _
  mem_arrived id := by
    simp only [tenantArrived, List.mem_map, mem_filter, find?_isNone_iff, hS, Set.mem_ofPred_eq]
    constructor
    · rintro ⟨s, ⟨hs, hnot⟩, rfl⟩
      exact ⟨⟨s, hs, rfl⟩, fun h => hnot (.inl h)⟩
    · rintro ⟨⟨s, hs, rfl⟩, hnot⟩
      exact ⟨s, ⟨hs, fun h => h.elim hnot fun hp => (hSP _ hp).2 (mem_map_of_mem hs)⟩, rfl⟩
  mem_left id := by
    simp only [tenantLeft, List.mem_map, mem_filter, mem_released_swap, Bool.not_eq_true',
      decide_eq_false_iff_not]
    constructor
    · rintro ⟨s, ⟨⟨hs, hf, -⟩, hp⟩, rfl⟩
      exact ⟨((hS _).1 ⟨s, hs, rfl⟩).resolve_right hp, by simpa using hf⟩
    · rintro ⟨hid, hf⟩
      obtain ⟨s, hs, rfl⟩ := (hS id).2 (.inl hid)
      exact ⟨s, ⟨⟨hs, by simpa using hf, fun h => hSP' _ h hid⟩, fun h => (hSP _ h).1 hid⟩, rfl⟩

/-- The platform tier, likewise; a read that failed sees the ids of the set before. -/
theorem delta_platform (hn : ∀ ps, rows = some ps → (ps.map (·.id)).Nodup)
    (hS : ∀ id, a.HasId id ↔ id ∈ S ∨ id ∈ a.platformIds)
    (hSP : ∀ id ∈ a.platformIds, id ∉ S ∧ id ∉ fresh.map (·.id))
    (hSP' : ∀ id ∈ (a.platformEntries rows).2, id ∉ S) :
    Delta {id | id ∈ a.platformIds} {id | id ∈ (a.platformEntries rows).2}
      (platformArrived a rows) (platformLeft a fresh rows) := by
  have harr : ∀ id, id ∈ platformArrived a rows ↔
      id ∈ (a.platformEntries rows).2 ∧ id ∉ a.platformIds := by
    intro id
    have hids : id ∈ (a.platformEntries rows).1.map (·.id) ↔ id ∈ (a.platformEntries rows).2 := by
      simpa [ActiveSet.merged] using @mem_merged_ids a [] rows id
    simp only [platformArrived, List.mem_map, mem_filter, find?_isNone_iff, hS] at hids ⊢
    constructor
    · rintro ⟨s, ⟨hs, hnot⟩, rfl⟩
      exact ⟨hids.1 ⟨s, hs, rfl⟩, fun h => hnot (.inr h)⟩
    · rintro ⟨hid, hnot⟩
      obtain ⟨s, hs, rfl⟩ := hids.2 hid
      exact ⟨s, ⟨hs, fun h => h.elim (hSP' _ hid) hnot⟩, rfl⟩
  refine ⟨?_, nodup_released_swap _, harr, fun id => ?_⟩
  · cases rows with
    | some ps =>
      have hmap : (ps.map (·.asKillSwitch)).map (·.id) = ps.map (·.id) := by
        rw [map_map]; rfl
      exact (hmap ▸ hn ps rfl).sublist (filter_sublist.map _)
    | none =>
      -- nothing arrives from a read that failed
      rw [eq_nil_iff_forall_not_mem.2 fun id hid => ((harr id).1 hid).2 ((harr id).1 hid).1]
      exact .nil
  · simp only [platformLeft, List.mem_map, mem_filter, mem_released_swap, decide_eq_true_eq,
      Set.mem_ofPred_eq]
    constructor
    · rintro ⟨s, ⟨⟨-, -, hp'⟩, hp⟩, rfl⟩
      exact ⟨hp, hp'⟩
    · rintro ⟨hp, hp'⟩
      obtain ⟨s, hs, rfl⟩ := (hS id).2 (.inr hp)
      exact ⟨s, ⟨⟨hs, by simpa using (hSP _ hp).2, hp'⟩, hp⟩, rfl⟩

end

/-! ## Every sequence of refreshes -/

/-- Appending to each of two parts is appending to the whole. -/
theorem perm_append_parts {x y z u v : List Uuid} (h : x.Perm (y ++ z)) :
    (x ++ (u ++ v)).Perm ((y ++ u) ++ (z ++ v)) := by
  rw [perm_iff_count] at h ⊢
  intro id
  have := h id
  simp only [count_append] at this ⊢
  omega

section
variable {l : RefreshLog} {tenant platform : Log Uuid}

/-- A refresh that gets past its tenant read keeps the tiers apart. -/
theorem Tiers.swap (fresh : List KillSwitch) (rows : Option (List PlatformKillSwitch))
    (h : Tiers l tenant platform) :
    Tiers ⟨(l.cache.swap fresh rows).2,
        l.newlyEngaged ++ (l.cache.swap fresh rows).1.newlyEngaged.map (·.id),
        l.released ++ (l.cache.swap fresh rows).1.released.map (·.id)⟩
      ⟨{id | id ∈ fresh.map (·.id)}, tenant.arrived ++ tenantArrived l.cache fresh,
        tenant.left ++ tenantLeft l.cache fresh rows⟩
      ⟨{id | id ∈ (l.cache.platformEntries rows).2},
        platform.arrived ++ platformArrived l.cache rows,
        platform.left ++ platformLeft l.cache fresh rows⟩ where
  hasId _ := hasId_swap
  platformIds _ := .rfl
  newlyEngaged := by
    rw [newlyEngaged_swap_eq]
    exact perm_append_parts h.newlyEngaged
  released := (released_swap_perm.append_left _).trans (perm_append_parts h.released)

end

variable {tenantId : Uuid}

/-- The calls that get past their tenant read. -/
theorem RefreshCall.run_ok {c : RefreshCall} {a : ActiveSet} {t : SwitchTable}
    (ht : c.tenant = .ok t) :
    c.run tenantId a = .ok (a.swap (listActive t)
      (c.platform.toOption.map (listActiveForTenant · tenantId))) := by
  unfold RefreshCall.run ActiveSet.refreshWithPlatform
  rw [ht]
  cases c.platform <;> rfl

theorem RefreshCall.run_error {c : RefreshCall} {a : ActiveSet} {e : SqlError}
    (ht : c.tenant = .error e) : c.run tenantId a = .error e := by
  unfold RefreshCall.run ActiveSet.refreshWithPlatform
  rw [ht]
  rfl

theorem refreshes_append_singleton (tenantId : Uuid) (calls : List RefreshCall) (c : RefreshCall) :
    refreshes tenantId (calls ++ [c]) = (refreshes tenantId calls).next tenantId c := by
  rw [refreshes, foldl_append]
  rfl

/-- An id that a tier's observer has present is one of the tier's reads. -/
theorem exists_read_of_present {Ts : List (Set Uuid)} {l : Log Uuid} (h : Observed Ts l) {id : Uuid}
    (hid : id ∈ l.present) : ∃ T ∈ Ts, id ∈ T := by
  obtain ⟨pre, rfl⟩ := h.last hid
  exact ⟨_, mem_append_right _ (.head _), hid⟩

/-- The reads of the two tiers share no id. -/
def TiersDisjoint (tenantId : Uuid) (calls : List RefreshCall) : Prop :=
  ∀ id, (∃ T ∈ tenantReads calls, id ∈ T) → ∀ P ∈ platformReads tenantId calls, id ∉ P

theorem TiersDisjoint.of_append {pre post : List RefreshCall}
    (h : TiersDisjoint tenantId (pre ++ post)) : TiersDisjoint tenantId pre := by
  rintro id ⟨T, hT, hid⟩ P hP
  refine h id ⟨T, ?_, hid⟩ P ?_
  · rw [tenantReads_append]; exact mem_append_left _ hT
  · rw [platformReads_append]; exact mem_append_left _ hP

section
variable {tenantId : Uuid} {calls : List RefreshCall} {c : RefreshCall} {t : SwitchTable}

/-- A call that fails its tenant read adds no read and changes nothing. -/
theorem reads_of_error (tenantId : Uuid) (calls : List RefreshCall) {e : SqlError}
    (ht : c.tenant = .error e) :
    tenantReads (calls ++ [c]) = tenantReads calls ∧
      platformReads tenantId (calls ++ [c]) = platformReads tenantId calls ∧
      refreshes tenantId (calls ++ [c]) = refreshes tenantId calls := by
  refine ⟨?_, ?_, ?_⟩
  · simp [tenantReads, RefreshCall.tenantRead, ht]
  · simp [platformReads, RefreshCall.platformRead, ht]
  · rw [refreshes_append_singleton, RefreshLog.next, RefreshCall.run_error ht]

theorem tenantReads_of_ok (ht : c.tenant = .ok t) :
    tenantReads (calls ++ [c]) = tenantReads calls ++ [{id | id ∈ (listActive t).map (·.id)}] := by
  simp [tenantReads, RefreshCall.tenantRead, ht]

/-- The step of `tiers_refreshes` for a call that gets past its tenant read. -/
theorem exists_tiers_of_ok (ht : c.tenant = .ok t) (hd : TiersDisjoint tenantId (calls ++ [c]))
    {tenant platform : Log Uuid} (hT : Observed (tenantReads calls) tenant)
    (hP : Observed (platformReads tenantId calls) platform)
    (h : Tiers (refreshes tenantId calls) tenant platform) :
    ∃ tenant' platform', Observed (tenantReads (calls ++ [c])) tenant' ∧
      Observed (platformReads tenantId (calls ++ [c])) platform' ∧
      Tiers (refreshes tenantId (calls ++ [c])) tenant' platform' := by
  have hset : platform.present = {id | id ∈ (refreshes tenantId calls).cache.platformIds} :=
    Set.ext fun id => (h.platformIds id).symm
  have hplatform : ∀ id ∈ (refreshes tenantId calls).cache.platformIds,
      ∃ P ∈ platformReads tenantId (calls ++ [c]), id ∈ P := fun id hid => by
    obtain ⟨P, hmem, hP⟩ := exists_read_of_present hP ((h.platformIds id).1 hid)
    exact ⟨P, by rw [platformReads_append]; exact mem_append_left _ hmem, hP⟩
  have htenant : ∀ id ∈ tenant.present, ∃ T ∈ tenantReads (calls ++ [c]), id ∈ T := fun id hid => by
    obtain ⟨T, hmem, hT⟩ := exists_read_of_present hT hid
    exact ⟨T, by rw [tenantReads_append]; exact mem_append_left _ hmem, hT⟩
  have hfresh : ∀ id ∈ (listActive t).map (·.id), ∃ T ∈ tenantReads (calls ++ [c]), id ∈ T :=
    fun id hid => ⟨_, by rw [tenantReads_of_ok ht]; exact mem_append_right _ (.head _), hid⟩
  have hS : ∀ id, (refreshes tenantId calls).cache.HasId id ↔
      id ∈ tenant.present ∨ id ∈ (refreshes tenantId calls).cache.platformIds := fun id => by
    rw [h.hasId, h.platformIds]
  have hSP : ∀ id ∈ (refreshes tenantId calls).cache.platformIds,
      id ∉ tenant.present ∧ id ∉ (listActive t).map (·.id) := fun id hid => by
    obtain ⟨P, hmem, hidP⟩ := hplatform id hid
    exact ⟨fun hi => hd id (htenant id hi) P hmem hidP, fun hi => hd id (hfresh id hi) P hmem hidP⟩
  have hn := nodup_listActive t
  rw [refreshes_append_singleton, RefreshLog.next, RefreshCall.run_ok ht, tenantReads_of_ok ht]
  cases hp : c.platform with
  | ok p =>
    have hreads : platformReads tenantId (calls ++ [c]) = platformReads tenantId calls ++
        [{id | id ∈ (listActiveForTenant p tenantId).map (·.id)}] := by
      simp [platformReads, RefreshCall.platformRead, ht, hp]
    have hSP' : ∀ id ∈ ((refreshes tenantId calls).cache.platformEntries
        (some (listActiveForTenant p tenantId))).2, id ∉ tenant.present := fun id hid hi =>
      hd id (htenant id hi) _ (by rw [hreads]; exact mem_append_right _ (.head _)) hid
    have hnp : ((listActiveForTenant p tenantId).map (·.id)).Nodup :=
      p.nodup.sublist (filter_sublist.map _)
    rw [hreads]
    refine ⟨_, _, hT.next (delta_tenant hn hS hSP hSP'), hP.next ?_, h.swap _ _⟩
    rw [hset]
    exact delta_platform (fun ps hps => by cases hps; exact hnp) hS hSP hSP'
  | error e =>
    have hreads : platformReads tenantId (calls ++ [c]) = platformReads tenantId calls := by
      simp [platformReads, RefreshCall.platformRead, ht, hp]
    have hSP' : ∀ id ∈ ((refreshes tenantId calls).cache.platformEntries none).2,
        id ∉ tenant.present := fun id hid => (hSP id hid).1
    obtain ⟨ha, hl⟩ := (delta_platform (by simp) hS hSP hSP').self
    rw [hreads]
    refine ⟨_, _, hT.next (delta_tenant hn hS hSP hSP'), hP, ?_⟩
    have := h.swap (listActive t) none
    rwa [ha, hl, append_nil, append_nil, ActiveSet.platformEntries, ← hset] at this

end

/-- After any calls the cache is the two tiers, observed at the reads that succeeded. -/
theorem tiers_refreshes (calls : List RefreshCall) (hd : TiersDisjoint tenantId calls) :
    ∃ tenant platform, Observed (tenantReads calls) tenant ∧
      Observed (platformReads tenantId calls) platform ∧
      Tiers (refreshes tenantId calls) tenant platform := by
  induction calls using List.reverseRecOn with
  | nil =>
    refine ⟨.start, .start, .start, .start, fun id => ?_, fun id => ?_, .nil, .nil⟩
    · simp [refreshes, ActiveSet.HasId, ActiveSet.new, Log.start]
    · simp [refreshes, ActiveSet.new, Log.start]
  | append_singleton calls c ih =>
    obtain ⟨tenant, platform, hT, hP, h⟩ := ih hd.of_append
    cases ht : c.tenant with
    | ok t => exact exists_tiers_of_ok ht hd hT hP h
    | error e =>
      obtain ⟨h1, h2, h3⟩ := reads_of_error tenantId calls ht
      rw [h1, h2, h3]
      exact ⟨tenant, platform, hT, hP, h⟩

/-- The ids in the active set, with all ids reported so far, as one log. -/
def RefreshLog.toLog (l : RefreshLog) : Log Uuid :=
  ⟨{id | l.cache.HasId id}, l.newlyEngaged, l.released⟩

section
variable {tenantId : Uuid} {calls pre post : List RefreshCall}

/-- When released switches stay so and the tiers share no id, the log is exact. -/
theorem exact_refreshes (hT : NeverBack (tenantReads calls))
    (hP : NeverBack (platformReads tenantId calls)) (hd : TiersDisjoint tenantId calls) :
    Exact (refreshes tenantId calls).toLog := by
  obtain ⟨tenant, platform, hoT, hoP, h⟩ := tiers_refreshes calls hd
  refine (hoT.exact hT).merge (hoP.exact hP) (fun id hi hi' => ?_) h.hasId h.newlyEngaged h.released
  obtain ⟨P, hP, hid⟩ := hoP.seen hi'
  exact hd id (hoT.seen hi) P hP hid

/-- A platform switch in the active set is there under its platform id. -/
theorem mem_platformIds_refreshes (hd : TiersDisjoint tenantId calls) {id : Uuid}
    (hid : (refreshes tenantId calls).cache.HasId id)
    (hP : ∃ P ∈ platformReads tenantId calls, id ∈ P) :
    id ∈ (refreshes tenantId calls).cache.platformIds := by
  obtain ⟨tenant, platform, hoT, -, h⟩ := tiers_refreshes calls hd
  rw [h.platformIds]
  refine ((h.hasId id).1 hid).resolve_left fun hi => ?_
  obtain ⟨P, hmem, hidP⟩ := hP
  exact hd id (exists_read_of_present hoT hi) P hmem hidP

/-- What a call releases it read in neither table, and a platform switch only when it could read the
platform's. -/
theorem reads_of_released (hd : TiersDisjoint tenantId pre) {c : RefreshCall} {delta : RefreshDelta}
    {a : ActiveSet} (hc : c.run tenantId (refreshes tenantId pre).cache = .ok (delta, a))
    {s : KillSwitch} (hs : s ∈ delta.released) :
    (refreshes tenantId pre).cache.HasId s.id ∧ (∃ T, c.tenantRead = some T ∧ s.id ∉ T) ∧
      ((∃ P ∈ platformReads tenantId pre, s.id ∈ P) →
        ∃ P, c.platformRead tenantId = some P ∧ s.id ∉ P) := by
  cases ht : c.tenant with
  | error e => rw [RefreshCall.run_error ht] at hc; cases hc
  | ok t =>
    rw [RefreshCall.run_ok ht, Except.ok.injEq] at hc
    obtain rfl := (Prod.mk.inj hc).1.symm
    obtain ⟨hmem, hT, hP⟩ := mem_released_swap.1 hs
    refine ⟨⟨s, hmem, rfl⟩, ⟨_, by rw [RefreshCall.tenantRead, ht], hT⟩, fun hread => ?_⟩
    have hid := mem_platformIds_refreshes hd ⟨s, hmem, rfl⟩ hread
    cases hp : c.platform with
    | error e => rw [hp] at hP; exact absurd hid hP
    | ok p =>
      rw [hp] at hP
      exact ⟨_, by rw [RefreshCall.platformRead, ht, hp], hP⟩

/-- Over every sequence of refreshes, with any failures of either read, in which no id comes back
after a read of its tier missed it and no id is read in both tiers: each id is reported at most once
as newly engaged and at most once as released; after every call the active set is what was engaged
and not released so far; and a call releases only what an earlier call engaged, a tenant switch when
its tenant read succeeded without it, a platform switch when its control read did. -/
theorem refresh_deltas_exactly_once (tenantId : Uuid) (calls : List RefreshCall)
    (hT : NeverBack (tenantReads calls)) (hP : NeverBack (platformReads tenantId calls))
    (hd : TiersDisjoint tenantId calls) :
    (refreshes tenantId calls).newlyEngaged.Nodup ∧ (refreshes tenantId calls).released.Nodup ∧
    (∀ pre post, calls = pre ++ post → ∀ id,
      (∃ s ∈ (refreshes tenantId pre).cache.switches, s.id = id) ↔
        id ∈ (refreshes tenantId pre).newlyEngaged ∧ id ∉ (refreshes tenantId pre).released) ∧
    (∀ pre c post, calls = pre ++ c :: post → ∀ delta a,
      c.run tenantId (refreshes tenantId pre).cache = .ok (delta, a) → ∀ s ∈ delta.released,
        s.id ∈ (refreshes tenantId pre).newlyEngaged ∧
        ((∃ T ∈ tenantReads pre, s.id ∈ T) → ∃ T, c.tenantRead = some T ∧ s.id ∉ T) ∧
        ((∃ P ∈ platformReads tenantId pre, s.id ∈ P) →
          ∃ P, c.platformRead tenantId = some P ∧ s.id ∉ P)) := by
  have hexact : ∀ pre post, calls = pre ++ post → Exact (refreshes tenantId pre).toLog := by
    rintro pre post rfl
    rw [tenantReads_append] at hT
    rw [platformReads_append] at hP
    exact exact_refreshes hT.of_append hP.of_append hd.of_append
  have h := hexact calls [] (List.append_nil calls).symm
  refine ⟨h.nodup_arrived, h.nodup_left,
    fun pre post hpre => (hexact pre post hpre).mem_present, ?_⟩
  intro pre c post hpre delta a hc s hs
  have hd' : TiersDisjoint tenantId pre := by
    subst hpre
    exact hd.of_append
  obtain ⟨hmem, hT', hP'⟩ := reads_of_released hd' hc hs
  exact ⟨((hexact pre (c :: post) hpre).mem_present s.id).1 hmem |>.1, fun _ => hT', hP'⟩

/-- A tenant and a platform switch are engaged; the tenant's is released while the control database
cannot be read, the platform's at the last call, after one that failed. -/
def sampleCalls : List RefreshCall :=
  [⟨.ok (.ofList [.sample ⟨1⟩]), .ok (.ofList [.sample ⟨2⟩])⟩,
   ⟨.ok ∅, .error .failed⟩, ⟨.error .failed, .ok ∅⟩, ⟨.ok ∅, .ok ∅⟩]

/-- Both switches are reported once either way. -/
theorem refresh_deltas_sampleCalls :
    (refreshes ⟨0⟩ sampleCalls).newlyEngaged = [⟨1⟩, ⟨2⟩] ∧
    (refreshes ⟨0⟩ sampleCalls).released = [⟨1⟩, ⟨2⟩] ∧
    (refreshes ⟨0⟩ sampleCalls).newlyEngaged.Nodup ∧
    (refreshes ⟨0⟩ sampleCalls).released.Nodup := by
  have hT : tenantReads sampleCalls = [{id | id ∈ [⟨1⟩]}, {id | id ∈ []}, {id | id ∈ []}] := rfl
  have hP : platformReads ⟨0⟩ sampleCalls = [{id | id ∈ [⟨2⟩]}, {id | id ∈ []}] := rfl
  have h := refresh_deltas_exactly_once ⟨0⟩ sampleCalls
    (by
      rw [hT]
      rintro (_ | ⟨S, _ | ⟨T, _ | ⟨U, pre⟩⟩⟩) V post h i hi <;> simp_all [Presence.Stays]
      rw [← h.2.2.1] at hi
      exact absurd hi (Set.notMem_empty i))
    (by
      rw [hP]
      rintro (_ | ⟨S, _ | ⟨T, pre⟩⟩) V post h i hi <;> simp_all [Presence.Stays])
    (by
      rintro id ⟨T, hmem, hid⟩ P hmem'
      rw [hT] at hmem
      rw [hP] at hmem'
      simp only [List.mem_cons, List.not_mem_nil, or_false] at hmem hmem'
      rcases hmem with rfl | rfl | rfl <;> rcases hmem' with rfl | rfl <;> simp_all)
  exact ⟨by decide, by decide, h.1, h.2.1⟩

end

end Messgr
