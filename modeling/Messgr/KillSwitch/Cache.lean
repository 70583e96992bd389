import Messgr.KillSwitch.Model

/-!
# The in-process cache of engaged switches

`ActiveSet` is what `KillSwitchCache` keeps under its lock: the engaged switches of both tiers by
id, and the ids of the platform ones. `refreshWithPlatform` is a refresh with both reads, `swap` its
part under the write lock. `blockingScope` is the check of a request, `exclusionForChannel` what a
claim leaves out: the disjunction of `matches` over the switches it was built from
(`excludes_exclusionForChannel`).
-/

namespace Messgr

open List

/-- The set under the cache's lock: the engaged switches by id and the platform ids among them, each
of which has a `global`, `hold` entry. Source: `src/kill_switch/cache.rs`. -/
structure ActiveSet where
  switches : SwitchTable
  platformIds : List Uuid
  platform : ∀ id ∈ platformIds, ∃ s ∈ switches, s.id = id ∧ s.scope = .global ∧ s.onQueued = .hold

/-- The set of a new cache. -/
def ActiveSet.new : ActiveSet := ⟨∅, [], nofun⟩

/-- What a refresh observed. -/
structure RefreshDelta where
  newlyEngaged : List KillSwitch
  released : List KillSwitch

namespace ActiveSet

/-- The platform rows a refresh swaps in after the tenant's own and their ids: the rows just read
or, when that read failed, the platform entries of the set before. -/
def platformEntries (guard : ActiveSet) :
    Option (List PlatformKillSwitch) → List KillSwitch × List Uuid
  | some rows => (rows.map (·.asKillSwitch), rows.map (·.id))
  | none => (guard.platformIds.filterMap guard.switches.find?, guard.platformIds)

variable {guard : ActiveSet} {rows : Option (List PlatformKillSwitch)}

/-- The entries that a failed control read carries over. -/
theorem mem_carried {s : KillSwitch} :
    s ∈ guard.platformIds.filterMap guard.switches.find? ↔
      s ∈ guard.switches ∧ s.id ∈ guard.platformIds := by
  rw [mem_filterMap]
  constructor
  · rintro ⟨id, hid, hf⟩
    obtain ⟨hs, rfl⟩ := Table.find?_some hf
    exact ⟨hs, hid⟩
  · rintro ⟨hs, hid⟩
    exact ⟨s.id, hid, Table.find?_of_mem hs⟩

/-- The platform rows are `global` and `hold`, whichever way they were obtained. -/
theorem platformEntries_global {s : KillSwitch} (hs : s ∈ (guard.platformEntries rows).1) :
    s.scope = .global ∧ s.onQueued = .hold := by
  cases rows with
  | some rows =>
    obtain ⟨p, -, rfl⟩ := mem_map.1 hs
    exact ⟨rfl, rfl⟩
  | none =>
    obtain ⟨hs, hid⟩ := mem_carried.1 hs
    obtain ⟨t, ht, htid, hg⟩ := guard.platform s.id hid
    rwa [← Table.eq_of_key ht hs htid]

/-- Every platform id has its row. -/
theorem exists_platformEntry {id : Uuid} (hid : id ∈ (guard.platformEntries rows).2) :
    ∃ s ∈ (guard.platformEntries rows).1, s.id = id := by
  cases rows with
  | some rows =>
    obtain ⟨p, hp, rfl⟩ := mem_map.1 hid
    exact ⟨p.asKillSwitch, mem_map_of_mem hp, rfl⟩
  | none =>
    obtain ⟨s, hs, rfl, -⟩ := guard.platform id hid
    exact ⟨s, mem_carried.2 ⟨hs, hid⟩, rfl⟩

/-- All the rows a refresh swaps in: the tenant's own, then the platform tier's. -/
def merged (guard : ActiveSet) (fresh : List KillSwitch)
    (platformRows : Option (List PlatformKillSwitch)) : List KillSwitch :=
  fresh ++ (guard.platformEntries platformRows).1

/-- The part of a refresh under the write lock: the deltas against the set before, and the new
set. `platformRows` is `none` when the control database could not be read. Source:
`KillSwitchCache::refresh_with_platform`, from `self.active.write()` on. -/
def swap (guard : ActiveSet) (fresh : List KillSwitch)
    (platformRows : Option (List PlatformKillSwitch)) : RefreshDelta × ActiveSet :=
  let merged := guard.merged fresh platformRows
  ({ newlyEngaged := merged.filter fun s => (guard.switches.find? s.id).isNone
     released := guard.switches.rows.filter fun s => s.id ∉ merged.map (·.id) },
   { switches := .ofList merged
     platformIds := (guard.platformEntries platformRows).2
     platform := by
      intro id hid
      obtain ⟨s, hs, rfl⟩ := exists_platformEntry hid
      obtain ⟨b, hb, hk⟩ := Table.exists_key_ofList KillSwitch.id (List.mem_append_right fresh hs)
      exact ⟨b, hb, hk, platformEntries_global
        (Table.mem_right_of_mem_ofList_append hb hs hk.symm)⟩ })

/-- One refresh. A failed tenant read fails the call; a failed control read keeps the platform
entries; without a platform source there are none. -/
def refreshWithPlatform (guard : ActiveSet) (tenant : Except SqlError (List KillSwitch))
    (platform : Option (Except SqlError (List PlatformKillSwitch))) :
    Except SqlError (RefreshDelta × ActiveSet) := do
  let fresh ← tenant
  let platformRows :=
    match platform with
    | none => some []
    | some (.ok rows) => some rows
    | some (.error _) => none
  return guard.swap fresh platformRows

/-- Every engaged switch. -/
def activeSnapshot (a : ActiveSet) : List KillSwitch := a.switches.rows

/-- The scope reported for a platform switch. Source: `PLATFORM_SCOPE`. -/
def platformScope : String := "platform"

/-- The scope of a switch that blocks a request, platform switches first. -/
def blockingScope [UuidCrate] (a : ActiveSet) (channel : String) (producerId : Uuid)
    (campaignId : Option String) : Option String :=
  if a.platformIds.isEmpty then
    (a.switches.rows.find? (·.matchesOn channel producerId campaignId)).map (·.scope.text)
  else
    some platformScope

end ActiveSet

/-! ## Exclusions -/

/-- What a claim on one channel leaves out. -/
structure ChannelExclusion where
  blockedEntirely : Bool
  blockedProducerIds : List Uuid
  blockedCampaignIds : List String
deriving DecidableEq

namespace ChannelExclusion

/-- `ChannelExclusion::default()`. -/
def default : ChannelExclusion := ⟨false, [], []⟩

/-- A message that the exclusion leaves out. -/
def Excludes (e : ChannelExclusion) (producerId : Uuid) (campaignId : Option String) : Prop :=
  e.blockedEntirely = true ∨ producerId ∈ e.blockedProducerIds ∨
    ∃ c ∈ e.blockedCampaignIds, campaignId = some c

@[simp] theorem not_excludes_default (producerId : Uuid) (campaignId : Option String) :
    ¬ default.Excludes producerId campaignId := by
  simp [Excludes, default]

section
variable [UuidCrate]

/-- The body of the loop of `exclusion_for_channel`. -/
def add (channel : String) (result : ChannelExclusion) (s : KillSwitch) : ChannelExclusion :=
  match s.scope with
  | .global => { result with blockedEntirely := true }
  | .channel =>
    if s.scopeKey = some channel then { result with blockedEntirely := true } else result
  | .producer =>
    match s.producerId with
    | some id => { result with blockedProducerIds := result.blockedProducerIds ++ [id] }
    | none => result
  | .producerChannel =>
    match s.producerChannelParts with
    | some (id, ch) =>
      if ch = channel then { result with blockedProducerIds := result.blockedProducerIds ++ [id] }
      else result
    | none => result
  | .campaign =>
    match s.scopeKey with
    | some c => { result with blockedCampaignIds := result.blockedCampaignIds ++ [c] }
    | none => result
  | .unrecognised _ => result

/-- One switch adds exactly the messages it matches. -/
theorem excludes_add {channel : String} {e : ChannelExclusion} {s : KillSwitch}
    {producerId : Uuid} {campaignId : Option String} :
    (add channel e s).Excludes producerId campaignId ↔
      e.Excludes producerId campaignId ∨ s.matchesOn channel producerId campaignId = true := by
  unfold add KillSwitch.matchesOn
  cases s.scope with
  | global => simp [Excludes]
  | channel =>
    by_cases hk : s.scopeKey = some channel <;> simp [Excludes, hk]
  | producer =>
    cases s.producerId with
    | none => simp
    | some id =>
      simp only [Excludes, mem_append, mem_singleton, Option.any_some,
        decide_eq_true_eq, eq_comm (a := id)]
      grind
  | producerChannel =>
    cases s.producerChannelParts with
    | none => simp
    | some p =>
      obtain ⟨id, ch⟩ := p
      by_cases hc : ch = channel
      · simp only [hc, if_true, Excludes, mem_append, mem_singleton, Option.any_some,
          Bool.and_eq_true, decide_eq_true_eq, eq_comm (a := id), and_true]
        grind
      · simp [hc]
  | campaign =>
    cases s.scopeKey with
    | none => cases campaignId <;> simp
    | some c =>
      cases campaignId with
      | none => simp [Excludes]
      | some k =>
        simp only [Excludes, mem_append, mem_singleton, Option.isSome_some,
          Bool.true_and, decide_eq_true_eq, Option.some.injEq, eq_comm (a := c)]
        constructor
        · rintro (h | h | ⟨d, h | h, rfl⟩)
          · exact .inl (.inl h)
          · exact .inl (.inr (.inl h))
          · exact .inl (.inr (.inr ⟨k, h, rfl⟩))
          · exact .inr h
        · rintro ((h | h | ⟨d, h, rfl⟩) | h)
          · exact .inl h
          · exact .inr (.inl h)
          · exact .inr (.inr ⟨k, .inl h, rfl⟩)
          · exact .inr (.inr ⟨k, .inr h, rfl⟩)
  | unrecognised text => simp

end

end ChannelExclusion

section
variable [UuidCrate]
variable {campaignId : Option String}

/-- One channel's exclusion from a list of switches. -/
def exclusionForChannel (switches : List KillSwitch) (channel : String) : ChannelExclusion :=
  switches.foldl (ChannelExclusion.add channel) .default

/-- The switches added exclude what they match. -/
theorem excludes_foldl_add {channel : String} {producerId : Uuid} (switches : List KillSwitch) :
    ∀ e : ChannelExclusion,
    (switches.foldl (ChannelExclusion.add channel) e).Excludes producerId campaignId ↔
      e.Excludes producerId campaignId ∨
        ∃ s ∈ switches, s.matchesOn channel producerId campaignId = true := by
  induction switches with
  | nil => simp
  | cons s switches ih =>
    intro e
    rw [foldl_cons, ih, ChannelExclusion.excludes_add]
    simp only [mem_cons, exists_eq_or_imp, or_assoc]

/-- An exclusion leaves out what some switch of the list matches. -/
theorem excludes_exclusionForChannel {switches : List KillSwitch} {channel : String}
    {producerId : Uuid} :
    (exclusionForChannel switches channel).Excludes producerId campaignId ↔
      ∃ s ∈ switches, s.matchesOn channel producerId campaignId = true := by
  rw [exclusionForChannel, excludes_foldl_add]
  simp

end

end Messgr
