import Mathlib.Data.List.Dedup
import Messgr.Dispatcher.Repo

/-!
# One scoping rule, four implementations

`KillSwitch::matches` says which messages a switch covers. The claim query, the claim of a drain,
the blast radius shown before an engage and the check of a request each implement the rule again,
two of them in SQL. Each is characterised by `matches`: `claimEligible_iff`,
`claimForScopeEligible_iff`, `holds_blastCondition` and `blockingScope_isSome`.
-/

namespace Messgr

open Table Option
open Sql (Truth Holds)

/-! ## Claims -/

variable {e : ChannelExclusion}

/-- The exclusion part of a claim keeps the rows that are not excluded. -/
theorem holds_exclusionCondition (r : OutboxRow) :
    (!e.blockedEntirely && Holds (exclusionCondition e r)) = true ↔ ¬ e.ExcludesRow r := by
  cases hc : r.campaignId <;>
    simp [exclusionCondition, ChannelExclusion.ExcludesRow, ChannelExclusion.Excludes, hc]

theorem holds_dueCondition {now : Time} {r : OutboxRow} :
    Holds (dueCondition now r) = true ↔ r.nextAttemptAt ≤ now ∧ r.leasedUntil = none := by
  simp [dueCondition]

/-- The rows of a channel that a claim may take. -/
theorem claimEligible_iff {now : Time} {channel : String} {r : OutboxRow} :
    claimEligible now channel e r = true ↔
      r.channel = channel ∧ r.nextAttemptAt ≤ now ∧ r.leasedUntil = none ∧ ¬ e.ExcludesRow r := by
  rw [← holds_exclusionCondition]
  simp only [claimEligible, claimCondition, Sql.holds_and, Bool.and_eq_true, Sql.holds_eq,
    holds_dueCondition, isSome_some, Option.some.injEq, true_and]
  tauto

/-! ## The blast radius -/

/-- `count(*) .. GROUP BY`: each value that occurs, with the number of its occurrences. -/
def groupCount {α : Type*} [DecidableEq α] (l : List α) : List (α × Nat) :=
  l.dedup.map fun a => (a, l.count a)

theorem mem_groupCount {α : Type*} [DecidableEq α] {l : List α} {a : α} {n : Nat} :
    (a, n) ∈ groupCount l ↔ 0 < n ∧ n = l.count a := by
  simp only [groupCount, List.mem_map, List.mem_dedup, Prod.mk.injEq]
  constructor
  · rintro ⟨b, hb, rfl, rfl⟩
    exact ⟨List.count_pos_iff.2 hb, rfl⟩
  · rintro ⟨hn, rfl⟩
    exact ⟨a, List.count_pos_iff.1 hn, rfl, rfl⟩

theorem nodup_groupCount {α : Type*} [DecidableEq α] (l : List α) :
    ((groupCount l).map Prod.fst).Nodup := by
  simp only [groupCount, List.map_map, Function.comp_def, List.map_id']
  exact l.nodup_dedup

section
variable [UuidCrate]
variable {a : ActiveSet} {producerId : Uuid} {campaignId : Option String}

/-- The conditions that `blast_radius` adds for a scope and a key; `none` where it returns without
a query. -/
def blastCondition (scope : Scope) (scopeKey : Option String) : Option (OutboxRow → Truth) :=
  match scope with
  | .global => some fun _ => some true
  | .channel => do
    let channel ← scopeKey
    return fun r => Sql.eq (some r.channel) (some channel)
  | .producer => do
    let producerId ← scopeKey.bind UuidCrate.parseStr
    return fun r => Sql.eq (some r.producerId) (some producerId)
  | .producerChannel => do
    let (producerId, channel) ← scopeKey.bind splitProducerChannel
    return fun r => Sql.and (Sql.eq (some r.producerId) (some producerId))
      (Sql.eq (some r.channel) (some channel))
  | .campaign => do
    let campaignId ← scopeKey
    return fun r => Sql.eq r.campaignId (some campaignId)
  | .unrecognised _ => none

/-- The queued rows that a scope and a key cover, counted by class. Source:
`src/kill_switch/repo.rs`. -/
def blastRadius (db : TenantDb) (scope : Scope) (scopeKey : Option String) :
    List (MsgClass × Nat) :=
  match blastCondition scope scopeKey with
  | none => []
  | some condition =>
    groupCount ((db.outbox.rows.filter fun r =>
      Holds (Sql.and (Sql.isNull r.cancelledAt) (condition r))).map (·.msgClass))

/-- The condition of the blast radius is `matches` of such a switch. -/
theorem holds_blastCondition (s : KillSwitch) (r : OutboxRow) :
    ((blastCondition s.scope s.scopeKey).any fun condition => Holds (condition r)) =
      s.matchesRow r := by
  rw [Bool.eq_iff_iff]
  unfold KillSwitch.matchesRow KillSwitch.matchesOn blastCondition
  cases s.scope with
  | global => simp
  | channel => cases s.scopeKey <;> simp [eq_comm (a := r.channel)]
  | producer =>
    show (Option.any _ (s.producerId.bind _)) = true ↔ _
    cases s.producerId <;> simp [eq_comm (a := r.producerId)]
  | producerChannel =>
    show (Option.any _ (s.producerChannelParts.bind _)) = true ↔ _
    cases s.producerChannelParts <;> simp [eq_comm (a := r.channel), eq_comm (a := r.producerId)]
  | campaign =>
    cases s.scopeKey with
    | none => cases r.campaignId <;> simp
    | some k => cases hc : r.campaignId <;> simp [hc, eq_comm (a := k)]
  | unrecognised text => simp

theorem nodup_blastRadius (db : TenantDb) (s : KillSwitch) :
    ((blastRadius db s.scope s.scopeKey).map Prod.fst).Nodup := by
  unfold blastRadius
  split
  · exact .nil
  · exact nodup_groupCount _

/-- The blast radius counts, class by class, the rows that the switch matches. -/
theorem mem_blastRadius {db : TenantDb} {s : KillSwitch} {c : MsgClass} {n : Nat} :
    (c, n) ∈ blastRadius db s.scope s.scopeKey ↔
      0 < n ∧ n = db.outbox.rows.countP fun r =>
        r.cancelledAt.isNone && s.matchesRow r && r.msgClass = c := by
  have hm := holds_blastCondition s
  unfold blastRadius
  cases hc : blastCondition s.scope s.scopeKey with
  | none =>
    simp only [hc, any_none] at hm
    simp [← hm]
    omega
  | some condition =>
    simp only [hc, any_some] at hm
    simp only [mem_groupCount, Sql.holds_and, Sql.holds_isNull, hm, List.count, List.countP_map,
      List.countP_filter, Function.comp_def, beq_eq_decide, Bool.and_comm, eq_comm]

/-! ## Claims of a scope -/

/-- On rows of the pinned channel, the scope part of a drain's claim is `matches`. -/
theorem holds_scopeCondition {channel : Option String} (s : KillSwitch) (r : OutboxRow)
    (hp : Holds (pinnedCondition channel r) = true) :
    ((scopeCondition channel s).any fun condition => Holds (condition r)) = s.matchesRow r := by
  rw [← holds_blastCondition]
  unfold scopeCondition blastCondition
  cases channel with
  | none =>
    -- without a pinned channel the two conditions differ in the order of a conjunction only
    cases s.scope with
    | producerChannel =>
      show Option.any _ (s.producerChannelParts.bind _) =
        Option.any _ (s.producerChannelParts.bind _)
      cases s.producerChannelParts <;> simp [Bool.and_comm]
    | _ => rfl
  | some pinned =>
    have hp : r.channel = pinned := by simpa [pinnedCondition] using hp
    subst hp
    rw [Bool.eq_iff_iff]
    cases s.scope with
    | channel =>
      cases s.scopeKey with
      | none => simp
      | some switchChannel => by_cases h : r.channel = switchChannel <;> simp [h]
    | producerChannel =>
      show Option.any _ (s.producerChannelParts.bind _) = true ↔
        Option.any _ (s.producerChannelParts.bind _) = true
      cases s.producerChannelParts with
      | none => simp
      | some parts => by_cases h : r.channel = parts.2 <;> simp [h]
    | _ => rfl

/-- The rows that the claim of a drain or a discard may take. -/
theorem claimForScopeEligible_iff {now : Time} {channel : Option String} {s : KillSwitch}
    {e : ChannelExclusion} {r : OutboxRow} :
    claimForScopeEligible now channel s e r = true ↔
      r.nextAttemptAt ≤ now ∧ r.leasedUntil = none ∧ (∀ c, channel = some c → r.channel = c) ∧
        s.matchesRow r = true ∧ ¬ e.ExcludesRow r := by
  have hp : Holds (pinnedCondition channel r) = true ↔ ∀ c, channel = some c → r.channel = c := by
    cases channel <;> simp [pinnedCondition]
  rw [← holds_exclusionCondition, ← hp]
  rw [claimForScopeEligible, claimForScopeCondition]
  split
  · next hb => simp [hb]
  · next hb =>
    by_cases h : Holds (pinnedCondition channel r) = true
    · rw [← holds_scopeCondition s r h]
      cases scopeCondition channel s <;> simp [hb, h, holds_dueCondition, and_assoc]
    · cases scopeCondition channel s <;> simp [h]

/-! ## The check of a request -/

/-- On any cache, a request is blocked exactly when a switch of the active set matches it: the short
cut for platform ids blocks nothing more. -/
theorem blockingScope_isSome {channel : String} :
    (a.blockingScope channel producerId campaignId).isSome = true ↔
      ∃ s ∈ a.switches, s.matchesOn channel producerId campaignId = true := by
  unfold ActiveSet.blockingScope
  split
  · rw [isSome_map, List.find?_isSome]
    rfl
  · next hp =>
    refine iff_of_true rfl ?_
    obtain ⟨id, hid⟩ := List.exists_mem_of_ne_nil _ (by simpa using hp)
    obtain ⟨s, hs, -, hg, -⟩ := a.platform id hid
    exact ⟨s, hs, by simp [KillSwitch.matchesOn, hg]⟩

/-- After a refresh of both tiers some entry matches a message exactly when a tenant row does or
there is a platform row. A platform entry may replace a tenant row of its id, but matches
everything. -/
theorem exists_matchesOn_swap {fresh : List KillSwitch} {rows : List PlatformKillSwitch}
    (hn : (fresh.map KillSwitch.id).Nodup) {channel : String} :
    (∃ s ∈ (a.swap fresh (some rows)).2.switches,
        s.matchesOn channel producerId campaignId = true) ↔
      (∃ s ∈ fresh, s.matchesOn channel producerId campaignId = true) ∨ ∃ p, p ∈ rows := by
  constructor
  · rintro ⟨s, hs, hm⟩
    rcases List.mem_append.1 (mem_of_mem_ofList hs) with hs | hs
    · exact .inl ⟨s, hs, hm⟩
    · obtain ⟨p, hp, -⟩ := List.mem_map.1 hs
      exact .inr ⟨p, hp⟩
  · intro h
    by_cases hr : ∃ p, p ∈ rows
    · obtain ⟨p, hp⟩ := hr
      have hp : p.asKillSwitch ∈ (a.platformEntries (some rows)).1 := List.mem_map_of_mem hp
      obtain ⟨b, hb, hk⟩ := exists_key_ofList KillSwitch.id (List.mem_append_right fresh hp)
      have hg := ActiveSet.platformEntries_global (mem_right_of_mem_ofList_append hb hp hk.symm)
      exact ⟨b, hb, by simp [KillSwitch.matchesOn, hg.1]⟩
    · obtain ⟨s, hs, hm⟩ := h.resolve_right hr
      have hrows : rows = [] := List.eq_nil_iff_forall_not_mem.2 fun p hp => hr ⟨p, hp⟩
      subst hrows
      refine ⟨s, (mem_ofList ?_).2 ?_, hm⟩
      · simpa [ActiveSet.merged, ActiveSet.platformEntries] using hn
      · simpa [ActiveSet.merged, ActiveSet.platformEntries] using hs

/-- A refresh of both tables blocks a request exactly when an engaged switch of either matches it.
-/
theorem blockingScope_refresh {tenants : SwitchTable} {platforms : PlatformSwitchTable}
    {tenantId : Uuid} {channel : String} :
    ((a.swap (listActive tenants) (some (listActiveForTenant platforms tenantId))).2.blockingScope
        channel producerId campaignId).isSome = true ↔
      (∃ s ∈ tenants, s.releasedAt = none ∧ s.matchesOn channel producerId campaignId = true) ∨
      ∃ p ∈ platforms, p.releasedAt = none ∧ p.appliesTo tenantId = true := by
  rw [blockingScope_isSome, exists_matchesOn_swap (nodup_listActive tenants)]
  simp only [mem_listActive, mem_listActiveForTenant, and_assoc]

/-! ## The agreement -/

/-- The four implementations agree with `matches`. For every list of tenant and platform switches,
every switch and exclusion, every scope and key and every pair of switch tables:

* a row passes the exclusion that `exclusion_for_channel` builds for its channel, and can be
  returned by a claim of that channel with it, exactly when no switch of the list matches it (and,
  for the claim, it is due and not leased);
* a row can be returned by `claim_for_scope`, pinned to a channel or not, exactly when it is due,
  not leased, on the pinned channel, matched by the switch and not excluded;
* `blast_radius` reports for each class, once, the number of rows not cancelled that the switch
  matches, and leaves out the classes with none;
* after a refresh of both tiers, `blocking_scope` is `Some` exactly when an engaged switch of the
  tenant or of the platform matches the request; on any cache, when an entry of it does. -/
theorem killSwitch_predicates_agree (db : TenantDb) (now leasedUntil : Time) :
    (∀ (tenants : List KillSwitch) (platforms : List PlatformKillSwitch), ∀ r ∈ db.outbox,
      let switches := tenants ++ platforms.map (·.asKillSwitch)
      let e := exclusionForChannel switches r.channel
      ((!e.blockedEntirely && Holds (exclusionCondition e r)) = true ↔
        ∀ s ∈ switches, s.matchesRow r = false) ∧
      ((∃ limit pick rows db',
          claim db now r.channel limit leasedUntil e pick = some (rows, db') ∧
          r.leased leasedUntil ∈ rows) ↔
        r.nextAttemptAt ≤ now ∧ r.leasedUntil = none ∧ ∀ s ∈ switches, s.matchesRow r = false)) ∧
    (∀ (s : KillSwitch) (e : ChannelExclusion) (channel : Option String), ∀ r ∈ db.outbox,
      (∃ limit pick rows db',
        claimForScope db now channel s limit leasedUntil e pick = some (rows, db') ∧
        r.leased leasedUntil ∈ rows) ↔
      r.nextAttemptAt ≤ now ∧ r.leasedUntil = none ∧ (∀ c, channel = some c → r.channel = c) ∧
        s.matchesRow r = true ∧ ¬ e.ExcludesRow r) ∧
    (∀ s : KillSwitch,
      ((blastRadius db s.scope s.scopeKey).map Prod.fst).Nodup ∧
      ∀ (c : MsgClass) (n : Nat), (c, n) ∈ blastRadius db s.scope s.scopeKey ↔
        0 < n ∧ n = db.outbox.rows.countP fun r =>
          r.cancelledAt.isNone && s.matchesRow r && r.msgClass = c) ∧
    (∀ (a : ActiveSet) (tenants : SwitchTable) (platforms : PlatformSwitchTable) (tenantId : Uuid)
        (channel : String) (producerId : Uuid) (campaignId : Option String),
      ((a.blockingScope channel producerId campaignId).isSome = true ↔
        ∃ s ∈ a.switches, s.matchesOn channel producerId campaignId = true) ∧
      ∃ delta a', a.refreshWithPlatform (.ok (listActive tenants))
          (some (.ok (listActiveForTenant platforms tenantId))) = .ok (delta, a') ∧
        ((a'.blockingScope channel producerId campaignId).isSome = true ↔
          (∃ s ∈ tenants, s.releasedAt = none ∧ s.matchesOn channel producerId campaignId = true) ∨
          ∃ p ∈ platforms, p.releasedAt = none ∧ p.appliesTo tenantId = true)) := by
  refine ⟨fun tenants platforms r hr => ?_, fun s e channel r hr => ?_, fun s => ?_,
    fun a tenants platforms tenantId channel producerId campaignId => ?_⟩
  · have hx : ∀ switches, ¬ (exclusionForChannel switches r.channel).ExcludesRow r ↔
        ∀ s ∈ switches, s.matchesRow r = false := fun switches => by
      rw [ChannelExclusion.ExcludesRow, excludes_exclusionForChannel]
      simp [KillSwitch.matchesRow]
    refine ⟨(holds_exclusionCondition r).trans (hx _), ?_⟩
    rw [exists_claim_iff hr, claimEligible_iff, hx]
    simp only [true_and]
  · rw [exists_claimForScope_iff hr, claimForScopeEligible_iff]
  · exact ⟨nodup_blastRadius db s, fun c n => mem_blastRadius⟩
  · exact ⟨blockingScope_isSome, _, _, rfl, blockingScope_refresh⟩

end

end Messgr
