import Mathlib.Data.Set.Basic
import Messgr.Dispatcher.Queue

/-!
# The switches in their tables

Switches come from two tables, the tenant's and that of the platform, and are never deleted: they
are engaged under a new id and released once. `World.switchRows` are those of a tier that are about
the tenant; `World.evolves_of_step` says what a step does with them, and that the tables stay in
order (`World.SwitchesInOrder`), so that an id names one switch of one tier.
-/

namespace Messgr

open Table

/-- No step of a pass touches the switches. -/
theorem PassStep.killSwitch {db db' : TenantDb} {row : OutboxRow} {env : Env} {stage : Stage}
    {next : Next} (h : PassStep db row env stage next db') : db'.killSwitch = db.killSwitch := by
  cases h with
  | goto | gaveUp | rescheduled => rfl
  | recorded result => simp [recordEvent]
  | wrote | bounded => simp [writeTerminal]

/-! ## The two registries -/

/-- The two tables that switches come from. -/
inductive Tier
  | tenant
  | platform
deriving DecidableEq

/-- A switch as it was when it was engaged. -/
def KillSwitch.engaged (s : KillSwitch) : KillSwitch :=
  { s with releasedBy := none, releasedAt := none }

namespace World

/-- All switches of a tier that are about the tenant, the platform's in the form that caches carry.
-/
def switchRows (w : World) : Tier → List KillSwitch
  | .tenant => w.db.killSwitch.rows
  | .platform => (w.platform.rows.filter (·.appliesTo w.tenantId)).map (·.asKillSwitch)

/-- The switches that were ever engaged, as they were then. -/
def knownSwitches (w : World) (tier : Tier) : Set KillSwitch :=
  {s | ∃ row ∈ w.switchRows tier, s = row.engaged}

/-- The switches that are engaged. -/
def liveSwitches (w : World) (tier : Tier) : Set KillSwitch :=
  {s | s ∈ w.switchRows tier ∧ s.releasedAt = none}

/-- What writes of both tables keep: no engaged switch was released, and no id is in both. -/
structure SwitchesInOrder (w : World) : Prop where
  tenant : ∀ s ∈ w.db.killSwitch, s.releasedAt = none → s.releasedBy = none
  platform : ∀ s ∈ w.platform, s.releasedAt = none → s.releasedBy = none
  disjoint : ∀ s ∈ w.db.killSwitch, ∀ p ∈ w.platform, s.id ≠ p.id

/-- How the tables change: every switch stays, and one that is engaged was so before or is new. -/
structure Evolves (w w' : World) : Prop where
  kept : ∀ tier, ∀ s ∈ w.switchRows tier, ∃ s' ∈ w'.switchRows tier, s'.engaged = s.engaged
  became : ∀ tier, ∀ s' ∈ w'.switchRows tier, s'.releasedAt = none →
    s' ∈ w.switchRows tier ∨ ∀ u, ∀ s ∈ w.switchRows u, s.id ≠ s'.id

section
variable {w w' : World} {tier : Tier} {s r : KillSwitch} {id : Uuid} {releasedBy : String}

theorem mem_switchRows_platform : s ∈ w.switchRows .platform ↔
    ∃ p ∈ w.platform, p.appliesTo w.tenantId = true ∧ p.asKillSwitch = s := by
  simp only [switchRows, List.mem_map, List.mem_filter, mem_def, and_assoc]

/-- A read of the platform's table finds the switches that are engaged. -/
theorem mem_liveSwitches_platform : s ∈ w.liveSwitches .platform ↔
    ∃ p ∈ listActiveForTenant w.platform w.tenantId, p.asKillSwitch = s := by
  simp only [liveSwitches, Set.mem_ofPred_eq, mem_switchRows_platform, mem_listActiveForTenant]
  constructor
  · intro ⟨⟨p, hp, happ, hps⟩, hl⟩
    subst hps
    exact ⟨p, ⟨hp, hl, happ⟩, rfl⟩
  · intro ⟨p, ⟨hp, hl, happ⟩, hps⟩
    subst hps
    exact ⟨⟨p, hp, happ, rfl⟩, hl⟩

namespace SwitchesInOrder

/-- A switch that is engaged is as it was then. -/
theorem engaged (h : w.SwitchesInOrder) (hs : s ∈ w.switchRows tier) (hl : s.releasedAt = none) :
    s.engaged = s := by
  have hby : s.releasedBy = none := by
    cases tier with
    | tenant => exact h.tenant s hs hl
    | platform =>
      obtain ⟨p, hp, -, rfl⟩ := mem_switchRows_platform.1 hs
      exact h.platform p hp hl
  cases s
  cases hl
  cases hby
  rfl

/-- An id names one switch. -/
theorem eq_of_id (h : w.SwitchesInOrder) {tier' : Tier} (hs : s ∈ w.switchRows tier)
    (hr : r ∈ w.switchRows tier') (hid : s.id = r.id) : tier = tier' ∧ s = r := by
  cases tier with
  | tenant =>
    cases tier' with
    | tenant => exact ⟨rfl, eq_of_key (t := w.db.killSwitch) hs hr hid⟩
    | platform =>
      obtain ⟨p, hp, -, rfl⟩ := mem_switchRows_platform.1 hr
      exact absurd hid (h.disjoint s hs p hp)
  | platform =>
    obtain ⟨p, hp, -, rfl⟩ := mem_switchRows_platform.1 hs
    cases tier' with
    | tenant => exact absurd hid.symm (h.disjoint r hr p hp)
    | platform =>
      obtain ⟨q, hq, -, rfl⟩ := mem_switchRows_platform.1 hr
      exact ⟨rfl, by rw [eq_of_key hp hq hid]⟩

/-- And so does the id of a switch as it was engaged. -/
theorem known_eq_of_id (h : w.SwitchesInOrder) {tier' : Tier} (hs : s ∈ w.knownSwitches tier)
    (hr : r ∈ w.knownSwitches tier') (hid : s.id = r.id) : tier = tier' ∧ s = r := by
  obtain ⟨s, hs, rfl⟩ := hs
  obtain ⟨r, hr, rfl⟩ := hr
  obtain ⟨ht, rfl⟩ := h.eq_of_id hs hr hid
  exact ⟨ht, rfl⟩

theorem live_subset_known (h : w.SwitchesInOrder) (tier : Tier) :
    w.liveSwitches tier ⊆ w.knownSwitches tier :=
  fun s ⟨hs, hl⟩ => ⟨s, hs, (h.engaged hs hl).symm⟩

end SwitchesInOrder

theorem switchesInOrder_empty : World.empty.SwitchesInOrder :=
  ⟨fun s hs => absurd hs (not_mem_empty s), fun s hs => absurd hs (not_mem_empty s),
    fun s hs => absurd hs (not_mem_empty s)⟩

theorem Evolves.known (h : w.Evolves w') (tier : Tier) :
    w.knownSwitches tier ⊆ w'.knownSwitches tier := by
  intro s ⟨row, hrow, hs⟩
  obtain ⟨row', hrow', he⟩ := h.kept tier row hrow
  exact ⟨row', hrow', hs.trans he.symm⟩

theorem Evolves.live (h : w.Evolves w') (hs : s ∈ w'.liveSwitches tier)
    (hk : s ∈ w.knownSwitches tier) : s ∈ w.liveSwitches tier := by
  obtain ⟨row, hrow, rfl⟩ := hk
  rcases h.became tier _ hs.1 hs.2 with hr | hnew
  · exact ⟨hr, hs.2⟩
  · exact absurd rfl (hnew tier row hrow)

theorem Evolves.of_eq (h : w'.switchRows = w.switchRows) : w.Evolves w' :=
  ⟨fun _ s hs => ⟨s, h ▸ hs, rfl⟩, fun _ _ hs _ => .inl (h ▸ hs)⟩

/-! ## Writes of the tables -/

theorem freshSwitchId_iff : w.freshSwitchId id = true ↔
    (∀ s ∈ w.db.killSwitch, s.id ≠ id) ∧ ∀ s ∈ w.platform, s.id ≠ id := by
  simp [freshSwitchId, mem_def]

/-- A fresh id is that of no switch about the tenant. -/
theorem ne_of_freshSwitchId (h : w.freshSwitchId id = true) (tier : Tier)
    (hs : s ∈ w.switchRows tier) : s.id ≠ id := by
  obtain ⟨ht, hp⟩ := freshSwitchId_iff.1 h
  cases tier with
  | tenant => exact ht s hs
  | platform =>
    obtain ⟨p, hp', -, rfl⟩ := mem_switchRows_platform.1 hs
    exact hp p hp'

section
variable (hi : w.SwitchesInOrder)
include hi

/-- A write of the tenant's table that keeps what was engaged; what is new is released or has a
fresh id. -/
theorem evolves_tenant {table : SwitchTable}
    (hkept : ∀ r ∈ w.db.killSwitch, ∃ r' ∈ table, r'.engaged = r.engaged)
    (hrow : ∀ r ∈ table, r ∈ w.db.killSwitch ∨
      (r.releasedAt ≠ none ∧ ∃ q ∈ w.db.killSwitch, q.id = r.id) ∨
      (r.releasedBy = none ∧ w.freshSwitchId r.id = true))
    (hw : w' = { w with db.killSwitch := table }) : w.Evolves w' ∧ w'.SwitchesInOrder := by
  subst hw
  refine ⟨⟨fun tier r hr => ?_, fun tier r hr hl => ?_⟩, ⟨fun r hr hl => ?_, hi.platform,
    fun r hr p hp => ?_⟩⟩
  · cases tier with
    | tenant => exact hkept r hr
    | platform => exact ⟨r, hr, rfl⟩
  · cases tier with
    | tenant =>
      rcases hrow r hr with hr | ⟨hne, -⟩ | ⟨-, fresh⟩
      · exact .inl hr
      · exact absurd hl hne
      · exact .inr fun u q hq => ne_of_freshSwitchId fresh u hq
    | platform => exact .inl hr
  · rcases hrow r hr with hr | ⟨hne, -⟩ | ⟨hby, -⟩
    · exact hi.tenant r hr hl
    · exact absurd hl hne
    · exact hby
  · rcases hrow r hr with hr | ⟨-, q, hq, hid⟩ | ⟨-, fresh⟩
    · exact hi.disjoint r hr p hp
    · exact hid ▸ hi.disjoint q hq p hp
    · exact fun hid => (freshSwitchId_iff.1 fresh).2 p hp hid.symm

/-- A switch of the tenant is engaged. -/
theorem evolves_engage {table : SwitchTable}
    (fresh : w.freshSwitchId s.id = true) (he : engage w.db.killSwitch s = some table)
    (hw : w' = { w with db.killSwitch := table }) : w.Evolves w' ∧ w'.SwitchesInOrder := by
  have hmem : ∀ r, r ∈ table ↔ r ∈ w.db.killSwitch ∨ r = s.engaged := by
    unfold engage at he
    split at he
    · cases he
    · exact (insert?_some he).2
  refine evolves_tenant hi (fun r hr => ⟨r, (hmem r).2 (.inl hr), rfl⟩) (fun r hr => ?_) hw
  rcases (hmem r).1 hr with hr | rfl
  · exact .inl hr
  · exact .inr (.inr ⟨rfl, fresh⟩)

/-- A switch of the tenant is released. -/
theorem evolves_release {now : Time}
    (hw : w' = { w with db.killSwitch := release w.db.killSwitch id releasedBy now }) :
    w.Evolves w' ∧ w'.SwitchesInOrder := by
  refine evolves_tenant hi (fun r hr => ?_) (fun r hr => ?_) hw
  · cases hc : r.id = id && r.releasedAt.isNone with
    | false => exact ⟨r, (mem_update _).2 (.inl ⟨hr, hc⟩), rfl⟩
    | true => exact ⟨_, (mem_update _).2 (.inr ⟨r, hr, hc, rfl⟩), rfl⟩
  · rcases (mem_update _).1 hr with ⟨hr, -⟩ | ⟨q, hq, -, rfl⟩
    · exact .inl hr
    · exact .inr (.inl ⟨nofun, q, hq, rfl⟩)

/-- A write of the platform's table that keeps what was engaged; what is new is released or has a
fresh id. -/
theorem evolves_platform {table : PlatformSwitchTable}
    (hkept : ∀ p ∈ w.platform, ∃ p' ∈ table, p'.appliesTo w.tenantId = p.appliesTo w.tenantId ∧
      p'.asKillSwitch.engaged = p.asKillSwitch.engaged)
    (hrow : ∀ p ∈ table, p ∈ w.platform ∨
      (p.releasedAt ≠ none ∧ ∃ q ∈ w.platform, q.id = p.id) ∨
      (p.releasedBy = none ∧ w.freshSwitchId p.id = true))
    (hw : w' = { w with platform := table }) : w.Evolves w' ∧ w'.SwitchesInOrder := by
  subst hw
  refine ⟨⟨fun tier r hr => ?_, fun tier r hr hl => ?_⟩, ⟨hi.tenant, fun p hp hl => ?_,
    fun r hr p hp => ?_⟩⟩
  · cases tier with
    | tenant => exact ⟨r, hr, rfl⟩
    | platform =>
      obtain ⟨p, hp, happ, rfl⟩ := mem_switchRows_platform.1 hr
      obtain ⟨p', hp', happ', he⟩ := hkept p hp
      exact ⟨_, mem_switchRows_platform.2 ⟨p', hp', happ'.trans happ, rfl⟩, he⟩
  · cases tier with
    | tenant => exact .inl hr
    | platform =>
      obtain ⟨p, hp, happ, rfl⟩ := mem_switchRows_platform.1 hr
      rcases hrow p hp with hp | ⟨hne, -⟩ | ⟨-, fresh⟩
      · exact .inl (mem_switchRows_platform.2 ⟨p, hp, happ, rfl⟩)
      · exact absurd hl hne
      · exact .inr fun u q hq => ne_of_freshSwitchId fresh u hq
  · rcases hrow p hp with hp | ⟨hne, -⟩ | ⟨hby, -⟩
    · exact hi.platform p hp hl
    · exact absurd hl hne
    · exact hby
  · rcases hrow p hp with hp | ⟨-, q, hq, hid⟩ | ⟨-, fresh⟩
    · exact hi.disjoint r hr p hp
    · exact hid ▸ hi.disjoint r hr q hq
    · exact (freshSwitchId_iff.1 fresh).1 r hr

/-- A switch of the platform is engaged. -/
theorem evolves_engagePlatform {s : PlatformKillSwitch} {table : PlatformSwitchTable}
    (fresh : w.freshSwitchId s.id = true)
    (he : engagePlatform w.platform s = some table) (hw : w' = { w with platform := table }) :
    w.Evolves w' ∧ w'.SwitchesInOrder := by
  have hmem : ∀ r, r ∈ table ↔ r ∈ w.platform ∨
      r = { s with releasedBy := none, releasedAt := none } := by
    unfold engagePlatform at he
    split at he
    · cases he
    · exact (insert?_some he).2
  refine evolves_platform hi (fun p hp => ⟨p, (hmem p).2 (.inl hp), rfl, rfl⟩) (fun p hp => ?_) hw
  rcases (hmem p).1 hp with hp | rfl
  · exact .inl hp
  · exact .inr (.inr ⟨rfl, fresh⟩)

/-- A switch of the platform is released. -/
theorem evolves_releasePlatform {now : Time}
    (hw : w' = { w with platform := releasePlatform w.platform id releasedBy now }) :
    w.Evolves w' ∧ w'.SwitchesInOrder := by
  refine evolves_platform hi (fun p hp => ?_) (fun p hp => ?_) hw
  · cases hc : p.id = id && p.releasedAt.isNone with
    | false => exact ⟨p, (mem_update _).2 (.inl ⟨hp, hc⟩), rfl, rfl⟩
    | true => exact ⟨_, (mem_update _).2 (.inr ⟨p, hp, hc, rfl⟩), rfl, rfl⟩
  · rcases (mem_update _).1 hp with ⟨hp, -⟩ | ⟨q, hq, -, rfl⟩
    · exact .inl hp
    · exact .inr (.inl ⟨nofun, q, hq, rfl⟩)

end

/-- The step leaves both tables as they are. -/
structure SameSwitches (w w' : World) : Prop where
  tenant : w'.db.killSwitch = w.db.killSwitch
  platform : w'.platform = w.platform
  tenantId : w'.tenantId = w.tenantId

theorem SameSwitches.switchRows (h : w.SameSwitches w') : w'.switchRows = w.switchRows := by
  funext tier
  cases tier with
  | tenant => rw [World.switchRows, h.tenant]; rfl
  | platform => rw [World.switchRows, h.platform, h.tenantId]; rfl

theorem SameSwitches.evolves (h : w.SameSwitches w') (hi : w.SwitchesInOrder) :
    w.Evolves w' ∧ w'.SwitchesInOrder := by
  refine ⟨.of_eq h.switchRows, ⟨?_, ?_, ?_⟩⟩
  · rw [h.tenant]
    exact hi.tenant
  · rw [h.platform]
    exact hi.platform
  · rw [h.tenant, h.platform]
    exact hi.disjoint

variable [UuidCrate]

/-- No step of a task touches the switches. -/
theorem sameSwitches_of_taskStep {t : Nat} {env : Env} (hs : w.TaskStep t env w') :
    w.SameSwitches w' := by
  cases hs with
  | looped | failed | batchDone | spawned | drained => exact ⟨rfl, rfl, rfl⟩
  | lost runs pc reply query | claimed runs pc reply query =>
    obtain ⟨_, -, hq⟩ := query_spec query
    exact ⟨by rw [World.moved, hq.db]; rfl, rfl, rfl⟩
  | @passed task host d jobs job rest runs pc head =>
    exact ⟨(@tryProcess_passStep d.cfg w.db job.row env job.stage).killSwitch, rfl, rfl⟩

/-- What a step does with the tables of switches. -/
theorem evolves_of_step {a : Act} (hi : w.SwitchesInOrder) (hs : w.Step a w') :
    w.Evolves w' ∧ w'.SwitchesInOrder := by
  have same : ∀ {w'}, w.SameSwitches w' → w.Evolves w' ∧ w'.SwitchesInOrder :=
    fun h => h.evolves hi
  cases hs with
  | refresh alive step => cases step <;> exact same ⟨rfl, rfl, rfl⟩
  | task step => exact same (sameSwitches_of_taskStep step)
  | inserted fresh insert =>
    rcases insertTransactional_ok insert with ⟨rfl, -⟩ | ⟨-, -, -, -, hk⟩
    · exact same ⟨rfl, rfl, rfl⟩
    · exact same ⟨hk, rfl, rfl⟩
  | engaged fresh engage => exact evolves_engage hi fresh engage rfl
  | released => exact evolves_release hi rfl
  | engagedPlatform fresh engage => exact evolves_engagePlatform hi fresh engage rfl
  | releasedPlatform => exact evolves_releasePlatform hi rfl
  | _ => exact same ⟨rfl, rfl, rfl⟩

end

end World

end Messgr
