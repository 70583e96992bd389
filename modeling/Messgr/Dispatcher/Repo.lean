import Messgr.KillSwitch.Cache
import Messgr.Lib.Sql
import Messgr.Tenant.Schema

/-!
# The dispatcher's statements

The queries of `src/dispatcher/repo.rs` on the tables of the tenant database. A claim is one
`UPDATE` over a locking subselect, so it is one step: rows that another transaction has locked at
that moment are skipped, ties of the order are broken arbitrarily and the rows come back in any
order. All of that is the database's choice, a `Pick`; `Selects` says which picks the subselect
allows.
-/

namespace Messgr

open List Table
open Sql (Truth Holds)

/-- A row that falls under a switch. -/
def KillSwitch.matchesRow [UuidCrate] (s : KillSwitch) (r : OutboxRow) : Bool :=
  s.matchesOn r.channel r.producerId r.campaignId

/-- A row that an exclusion leaves out. -/
def ChannelExclusion.ExcludesRow (e : ChannelExclusion) (r : OutboxRow) : Prop :=
  e.Excludes r.producerId r.campaignId

/-! ## Claiming -/

/-- What the database decides in a claim: the rows it returns, in order, and those it skipped as
locked. -/
structure Pick where
  ids : List Uuid
  nodup : ids.Nodup
  locked : List Uuid
deriving DecidableEq

/-- A claim that returns nothing. -/
def Pick.nothing : Pick := ⟨[], List.nodup_nil, []⟩

/-- A claim that returns one message. -/
def Pick.one (id : Uuid) : Pick := ⟨[id], List.nodup_singleton id, []⟩

/-- `ORDER BY priority, next_attempt_at`. -/
def OutboxRow.before (a b : OutboxRow) : Bool :=
  a.priority < b.priority || (a.priority = b.priority && a.nextAttemptAt ≤ b.nextAttemptAt)

/-- The picks that `SELECT .. WHERE condition ORDER BY priority, next_attempt_at LIMIT limit FOR
UPDATE SKIP LOCKED` allows: eligible rows that are not locked, at most `limit` of them, and either
all such rows or `limit` first ones. -/
def Selects (outbox : List OutboxRow) (condition : OutboxRow → Truth) (limit : Nat) (pick : Pick) :
    Bool :=
  let free := outbox.filter fun r => Holds (condition r) && r.commsRequestId ∉ pick.locked
  let left := free.filter fun r => r.commsRequestId ∉ pick.ids
  pick.ids.all (fun id => free.any (·.commsRequestId = id)) && pick.ids.length ≤ limit &&
    (left.isEmpty || (pick.ids.length = limit &&
      free.all fun a => a.commsRequestId ∉ pick.ids || left.all (a.before ·)))

/-- A row as the claim leaves it: `leased_until = $3, attempts = attempts + 1`. -/
def OutboxRow.leased (r : OutboxRow) (leasedUntil : Time) : OutboxRow :=
  { r with leasedUntil := some leasedUntil, attempts := r.attempts + 1 }

@[simp] theorem OutboxRow.leased_commsRequestId (r : OutboxRow) (leasedUntil : Time) :
    (r.leased leasedUntil).commsRequestId = r.commsRequestId := rfl

/-- `UPDATE outbox SET leased_until, attempts WHERE comms_request_id IN (..)`. -/
def TenantDb.lease (db : TenantDb) (ids : List Uuid) (leasedUntil : Time) : TenantDb :=
  { db with
    outbox := db.outbox.update (·.commsRequestId ∈ ids) (·.leased leasedUntil)
      (·.leased_commsRequestId leasedUntil) }

/-- The claim of the rows that `condition` selects: its `RETURNING` and the database after; `none`
for a pick that is not allowed. -/
def TenantDb.claimWhere (db : TenantDb) (condition : OutboxRow → Truth) (limit : Nat)
    (leasedUntil : Time) (pick : Pick) : Option (OutboxRows × TenantDb) :=
  if Selects db.outbox.rows condition limit pick then
    let db' := db.lease pick.ids leasedUntil
    some (db'.outbox.select pick.ids pick.nodup, db')
  else none

/-- A claim that returns no row without a query, `Ok(Vec::new())`. -/
def TenantDb.claimNothing (db : TenantDb) (pick : Pick) : Option (OutboxRows × TenantDb) :=
  if pick.ids = [] then some (∅, db) else none

/-- `producer_id <> ALL($4) AND (campaign_id IS NULL OR campaign_id <> ALL($5))`, the condition that
both claims end with. -/
def exclusionCondition (e : ChannelExclusion) (r : OutboxRow) : Truth :=
  Sql.and (Sql.neAll (some r.producerId) e.blockedProducerIds)
    (Sql.or (Sql.isNull r.campaignId) (Sql.neAll r.campaignId e.blockedCampaignIds))

/-- `next_attempt_at <= now() AND leased_until IS NULL`. -/
def dueCondition (now : Time) (r : OutboxRow) : Truth :=
  Sql.and (Sql.le (some r.nextAttemptAt) (some now)) (Sql.isNull r.leasedUntil)

/-- The `WHERE` of `claim`. -/
def claimCondition (now : Time) (channel : String) (e : ChannelExclusion) (r : OutboxRow) :
    Truth :=
  Sql.and (Sql.and (Sql.eq (some r.channel) (some channel)) (dueCondition now r))
    (exclusionCondition e r)

/-- Leases up to `limit` ready rows of a channel. Source: `repo.rs`. -/
def claim (db : TenantDb) (now : Time) (channel : String) (limit : Nat)
    (leasedUntil : Time) (exclusion : ChannelExclusion) (pick : Pick) :
    Option (OutboxRows × TenantDb) :=
  if exclusion.blockedEntirely then db.claimNothing pick
  else db.claimWhere (claimCondition now channel exclusion) limit leasedUntil pick

section
variable [UuidCrate]

/-- The conditions that `claim_for_scope` adds for the channel it is pinned to and for the switch;
`none` where it returns without a query. -/
def scopeCondition (channel : Option String) (s : KillSwitch) : Option (OutboxRow → Truth) :=
  match s.scope with
  | .global => some fun _ => some true
  | .channel => do
    let switchChannel ← s.scopeKey
    match channel with
    | some pinned => if pinned ≠ switchChannel then none else some fun _ => some true
    | none => some fun r => Sql.eq (some r.channel) (some switchChannel)
  | .producer => do
    let producerId ← s.producerId
    return fun r => Sql.eq (some r.producerId) (some producerId)
  | .producerChannel => do
    let (producerId, switchChannel) ← s.producerChannelParts
    match channel with
    | some pinned =>
      if pinned ≠ switchChannel then none
      else some fun r => Sql.eq (some r.producerId) (some producerId)
    | none =>
      some fun r => Sql.and (Sql.eq (some r.channel) (some switchChannel))
        (Sql.eq (some r.producerId) (some producerId))
  | .campaign => do
    let campaignId ← s.scopeKey
    return fun r => Sql.eq r.campaignId (some campaignId)
  | .unrecognised _ => none

/-- `AND channel = $n`, when a channel is pinned. -/
def pinnedCondition (channel : Option String) (r : OutboxRow) : Truth :=
  match channel with
  | some pinned => Sql.eq (some r.channel) (some pinned)
  | none => some true

/-- The `WHERE` of `claim_for_scope`, `none` where it returns without a query. -/
def claimForScopeCondition (now : Time) (channel : Option String) (s : KillSwitch)
    (e : ChannelExclusion) : Option (OutboxRow → Truth) :=
  if e.blockedEntirely then none
  else do
    let scope ← scopeCondition channel s
    return fun r =>
      Sql.and (Sql.and (dueCondition now r) (pinnedCondition channel r))
        (Sql.and (scope r) (exclusionCondition e r))

/-- Leases up to `limit` rows that a switch matches. Source: `repo.rs`. -/
def claimForScope (db : TenantDb) (now : Time) (channel : Option String) (s : KillSwitch)
    (limit : Nat) (leasedUntil : Time) (exclusion : ChannelExclusion) (pick : Pick) :
    Option (OutboxRows × TenantDb) :=
  match claimForScopeCondition now channel s exclusion with
  | none => db.claimNothing pick
  | some condition => db.claimWhere condition limit leasedUntil pick

end

/-! ## What a claim does -/

/-- A row after a claim was not picked, or was picked and is leased. -/
theorem mem_lease {db : TenantDb} {ids : List Uuid} {leasedUntil : Time} {r : OutboxRow} :
    r ∈ (db.lease ids leasedUntil).outbox ↔
      (r ∈ db.outbox ∧ r.commsRequestId ∉ ids) ∨
      ∃ r0 ∈ db.outbox, r0.commsRequestId ∈ ids ∧ r = r0.leased leasedUntil := by
  simp only [TenantDb.lease, mem_update, decide_eq_true_eq, decide_eq_false_iff_not]

/-- What a claim did: it leased rows that were eligible and returned them as leased. -/
structure Claimed (db : TenantDb) (eligible : OutboxRow → Bool) (leasedUntil : Time)
    (ids : List Uuid) (rows : OutboxRows) (db' : TenantDb) : Prop where
  eligible : ∀ id ∈ ids, ∃ r ∈ db.outbox, r.commsRequestId = id ∧ eligible r = true
  mem_rows : ∀ r, r ∈ rows ↔ ∃ r0 ∈ db.outbox, r0.commsRequestId ∈ ids ∧ r = r0.leased leasedUntil
  db : db' = db.lease ids leasedUntil

section
variable {db db' : TenantDb} {condition : OutboxRow → Truth} {eligible : OutboxRow → Bool}
  {limit : Nat} {leasedUntil : Time} {pick : Pick} {ids : List Uuid} {rows : OutboxRows}
variable {r : OutboxRow} {s : KillSwitch}

/-- A row that a claim returns was eligible before. -/
theorem Claimed.eligible_of_mem (h : Claimed db eligible leasedUntil ids rows db') (hr : r ∈ rows) :
    ∃ r0 ∈ db.outbox, eligible r0 = true ∧ r = r0.leased leasedUntil := by
  obtain ⟨r0, hr0, hid, rfl⟩ := (h.mem_rows r).1 hr
  obtain ⟨r1, hr1, hk, he⟩ := h.eligible _ hid
  exact ⟨r0, hr0, eq_of_key hr1 hr0 hk ▸ he, rfl⟩

/-- A row that a claim returns in its leased form was eligible. -/
theorem Claimed.eligible_of_leased_mem (h : Claimed db eligible leasedUntil ids rows db')
    (hr : r ∈ db.outbox) (hmem : r.leased leasedUntil ∈ rows) : eligible r = true := by
  obtain ⟨r0, hr0, he, heq⟩ := h.eligible_of_mem hmem
  have hk : r0.commsRequestId = r.commsRequestId :=
    (congrArg OutboxRow.commsRequestId heq).symm
  exact eq_of_key hr0 hr hk ▸ he

/-- The query of a claim. -/
theorem claimed_of_claimWhere
    (h : db.claimWhere condition limit leasedUntil pick = some (rows, db')) :
    Claimed db (fun r => Holds (condition r)) leasedUntil pick.ids rows db' := by
  unfold TenantDb.claimWhere at h
  split at h
  · next hs =>
    cases h
    simp only [Selects, Bool.and_eq_true, decide_eq_true_eq, all_eq_true, any_eq_true,
      mem_filter] at hs
    refine ⟨fun id hid => ?_, fun r => ?_, rfl⟩
    · obtain ⟨r, ⟨hr, hc, -⟩, hk⟩ := hs.1.1 id hid
      exact ⟨r, hr, hk, hc⟩
    · rw [mem_select, mem_lease]
      constructor
      · rintro ⟨⟨-, hn⟩ | hr, hid⟩
        · exact absurd hid hn
        · exact hr
      · rintro ⟨r0, hr0, hid, rfl⟩
        exact ⟨.inr ⟨r0, hr0, hid, rfl⟩, hid⟩
  · cases h

/-- A claim without a query leaves the database as it is. -/
theorem claimed_of_claimNothing (h : db.claimNothing pick = some (rows, db')) :
    Claimed db eligible leasedUntil pick.ids rows db' := by
  unfold TenantDb.claimNothing at h
  split at h
  · next hn =>
    cases h
    rw [hn]
    refine ⟨fun id hid => absurd hid not_mem_nil, fun r => ?_, ?_⟩
    · simp
    · simp [TenantDb.lease, Table.update, Table.updateRows]
  · cases h

/-- Any row that a condition selects can be what a claim of one row returns: the others may be
locked. -/
theorem exists_claimWhere (leasedUntil : Time) (hr : r ∈ db.outbox)
    (hc : Holds (condition r) = true) :
    ∃ pick rows db', db.claimWhere condition 1 leasedUntil pick = some (rows, db') ∧
      r.leased leasedUntil ∈ rows := by
  have hs : Selects db.outbox.rows condition 1 ⟨[r.commsRequestId], nodup_singleton _,
      (db.outbox.rows.map (·.commsRequestId)).filter (· ≠ r.commsRequestId)⟩ = true := by
    simp only [Selects, Bool.and_eq_true, Bool.or_eq_true, decide_eq_true_eq, all_eq_true,
      any_eq_true, mem_filter, List.mem_map, List.isEmpty_iff]
    refine ⟨⟨fun id hid => ⟨r, ⟨hr, hc, by simp⟩, (mem_singleton.1 hid).symm⟩, by simp⟩,
      .inl (eq_nil_iff_forall_not_mem.2 fun a ha => ?_)⟩
    simp only [mem_filter, Bool.and_eq_true, decide_eq_true_eq, mem_singleton] at ha
    exact ha.1.2.2 ⟨⟨a, ha.1.1, rfl⟩, ha.2⟩
  refine ⟨_, _, _, if_pos hs, ?_⟩
  exact ((claimed_of_claimWhere (if_pos hs)).mem_rows _).2 ⟨r, hr, by simp, rfl⟩

theorem OutboxRow.before_total (a b : OutboxRow) : (a.before b || b.before a) = true := by
  simp only [OutboxRow.before, Bool.or_eq_true, Bool.and_eq_true, decide_eq_true_eq]
  grind

theorem OutboxRow.before_trans (a b c : OutboxRow) (hab : a.before b = true)
    (hbc : b.before c = true) : a.before c = true := by
  simp only [OutboxRow.before, Bool.or_eq_true, Bool.and_eq_true, decide_eq_true_eq] at hab hbc ⊢
  grind

/-- A claim can always be answered, also when no row is locked. -/
theorem exists_selects (outbox : OutboxRows) (condition : OutboxRow → Truth) (limit : Nat) :
    ∃ pick, pick.locked = [] ∧ Selects outbox.rows condition limit pick = true := by
  let free := outbox.rows.filter fun r => Holds (condition r)
  let sorted := free.mergeSort OutboxRow.before
  have hperm : sorted.Perm free := mergeSort_perm free OutboxRow.before
  have hsorted : sorted.Pairwise fun a b => a.before b = true :=
    pairwise_mergeSort OutboxRow.before_trans OutboxRow.before_total free
  have hnodup : (sorted.map (·.commsRequestId)).Nodup :=
    (hperm.map _).nodup_iff.2 (outbox.nodup.sublist (filter_sublist.map _))
  have hmem : ∀ {r}, r ∈ sorted ↔ r ∈ outbox ∧ Holds (condition r) = true := by
    intro r
    rw [hperm.mem_iff, mem_filter]
    rfl
  let ids := (sorted.take limit).map (·.commsRequestId)
  -- a free row is among the first ones by its id
  have htake : ∀ {r}, r ∈ sorted → r.commsRequestId ∈ ids → r ∈ sorted.take limit := by
    intro r hr hid
    obtain ⟨r', hr', heq⟩ := mem_map.1 hid
    rwa [← eq_of_key (hmem.1 (mem_of_mem_take hr')).1 (hmem.1 hr).1 heq]
  refine ⟨⟨ids, hnodup.sublist ((take_sublist _ _).map _), []⟩, rfl, ?_⟩
  simp only [Selects, Bool.and_eq_true, Bool.or_eq_true, decide_eq_true_eq, all_eq_true,
    any_eq_true, mem_filter, List.isEmpty_iff, not_mem_nil, not_false_eq_true,
    decide_true, and_true]
  refine ⟨⟨fun id hid => ?_, ?_⟩, ?_⟩
  · obtain ⟨r, hr, rfl⟩ := mem_map.1 hid
    exact ⟨r, hmem.1 (mem_of_mem_take hr), rfl⟩
  · show ((sorted.take limit).map _).length ≤ limit
    rw [length_map, length_take]
    exact Nat.min_le_left _ _
  · by_cases hlen : limit ≤ sorted.length
    · refine .inr ⟨by simp [ids, hlen], fun a ha => ?_⟩
      by_cases hid : a.commsRequestId ∈ ids
      · refine .inr fun b hb => ?_
        have hb' : b ∈ sorted.drop limit := by
          have hbs : b ∈ sorted := hmem.2 hb.1
          rw [← take_append_drop limit sorted, mem_append] at hbs
          exact hbs.resolve_left fun h => hb.2 (mem_map_of_mem h)
        rw [← take_append_drop limit sorted] at hsorted
        exact (pairwise_append.1 hsorted).2.2 a (htake (hmem.2 ha) hid) b hb'
      · exact .inl hid
    · refine .inl (filter_eq_nil_iff.2 fun r hr => ?_)
      rw [mem_filter, Bool.and_true] at hr
      have htake : r ∈ sorted.take limit := by
        rw [take_of_length_le (Nat.le_of_not_le hlen)]
        exact hmem.2 hr
      simpa only [decide_eq_true_eq, not_not] using mem_map_of_mem htake

/-- The rows that `claim` may take. -/
def claimEligible (now : Time) (channel : String) (e : ChannelExclusion) (r : OutboxRow) :
    Bool :=
  !e.blockedEntirely && Holds (claimCondition now channel e r)

variable {now : Time} {e : ChannelExclusion}

theorem claim_spec {channel : String}
    (h : claim db now channel limit leasedUntil e pick = some (rows, db')) :
    Claimed db (claimEligible now channel e) leasedUntil pick.ids rows db' := by
  unfold claim at h
  split at h
  · exact claimed_of_claimNothing h
  · next hb =>
    have := claimed_of_claimWhere h
    exact { this with eligible := by simpa [claimEligible, hb] using this.eligible }

/-- The rows that some claim of a channel can return are the eligible ones. -/
theorem exists_claim_iff {channel : String} (hr : r ∈ db.outbox) :
    (∃ limit pick rows db', claim db now channel limit leasedUntil e pick = some (rows, db') ∧
        r.leased leasedUntil ∈ rows) ↔ claimEligible now channel e r = true := by
  constructor
  · rintro ⟨limit, pick, rows, db', h, hmem⟩
    exact (claim_spec h).eligible_of_leased_mem hr hmem
  · intro he
    simp only [claimEligible, Bool.and_eq_true, Bool.not_eq_true'] at he
    obtain ⟨pick, rows, db', h, hmem⟩ := exists_claimWhere leasedUntil hr he.2
    exact ⟨1, pick, rows, db', by simp [claim, he.1, h], hmem⟩

variable [UuidCrate]

/-- The rows that `claim_for_scope` may take. -/
def claimForScopeEligible (now : Time) (channel : Option String) (s : KillSwitch)
    (e : ChannelExclusion) (r : OutboxRow) : Bool :=
  (claimForScopeCondition now channel s e).any fun condition => Holds (condition r)

theorem claimForScope_spec {channel : Option String}
    (h : claimForScope db now channel s limit leasedUntil e pick = some (rows, db')) :
    Claimed db (claimForScopeEligible now channel s e) leasedUntil pick.ids rows db' := by
  unfold claimForScope at h
  split at h
  · exact claimed_of_claimNothing h
  · next hc =>
    have := claimed_of_claimWhere h
    exact { this with eligible := by simpa [claimForScopeEligible, hc] using this.eligible }

/-- A claim of a scope that returns nothing has skipped every row that it may take, if it may take
any number of rows but none. -/
theorem locked_of_claimForScope_nil {channel : Option String}
    (h : claimForScope db now channel s limit leasedUntil e pick = some (rows, db'))
    (hnil : rows.rows = []) (hlimit : 1 ≤ limit) (hr : r ∈ db.outbox)
    (he : claimForScopeEligible now channel s e r = true) : r.commsRequestId ∈ pick.locked := by
  have hids : pick.ids = [] := by
    refine eq_nil_iff_forall_not_mem.2 fun id hid => ?_
    obtain ⟨r0, hr0, rfl, -⟩ := (claimForScope_spec h).eligible id hid
    have hmem := ((claimForScope_spec h).mem_rows _).2 ⟨r0, hr0, hid, rfl⟩
    rw [mem_def, hnil] at hmem
    cases hmem
  rw [claimForScopeEligible, Option.any_eq_true] at he
  obtain ⟨condition, hc, he⟩ := he
  simp only [claimForScope, hc, TenantDb.claimWhere] at h
  split at h
  · next hs =>
    by_contra hl
    have hpos : 0 ≠ limit := by omega
    simp only [Selects, hids, length_nil, Bool.and_eq_true, Bool.or_eq_true,
      decide_eq_true_eq, hpos, false_and, or_false, List.isEmpty_iff, filter_filter,
      filter_eq_nil_iff] at hs
    exact hs.2 r hr (by simp [he, hl])
  · cases h

/-- A claim of a scope can always be answered, also when no row is locked. -/
theorem exists_claimForScope (db : TenantDb) (now : Time) (channel : Option String)
    (s : KillSwitch) (limit : Nat) (leasedUntil : Time) (e : ChannelExclusion) :
    ∃ pick rows db', pick.locked = [] ∧
      claimForScope db now channel s limit leasedUntil e pick = some (rows, db') := by
  cases hc : claimForScopeCondition now channel s e with
  | none =>
    refine ⟨.nothing, ∅, db, rfl, ?_⟩
    simp [claimForScope, hc, TenantDb.claimNothing, Pick.nothing]
  | some condition =>
    obtain ⟨pick, hlocked, hs⟩ := exists_selects db.outbox condition limit
    exact ⟨pick, _, _, hlocked, by simp only [claimForScope, hc, TenantDb.claimWhere, hs]; rfl⟩

/-- The rows that some claim of a scope can return are the eligible ones. -/
theorem exists_claimForScope_iff {channel : Option String} (hr : r ∈ db.outbox) :
    (∃ limit pick rows db',
        claimForScope db now channel s limit leasedUntil e pick = some (rows, db') ∧
        r.leased leasedUntil ∈ rows) ↔ claimForScopeEligible now channel s e r = true := by
  constructor
  · rintro ⟨limit, pick, rows, db', h, hmem⟩
    exact (claimForScope_spec h).eligible_of_leased_mem hr hmem
  · intro he
    rw [claimForScopeEligible, Option.any_eq_true] at he
    obtain ⟨condition, hc, he⟩ := he
    obtain ⟨pick, rows, db', h, hmem⟩ := exists_claimWhere leasedUntil hr he
    exact ⟨1, pick, rows, db', by simp [claimForScope, hc, h], hmem⟩

end

/-! ## Reads of the gates -/

/-- The two encrypted columns of a request. -/
def loadCiphertexts (db : TenantDb) (createdAt : Time) (commsRequestId : Uuid) :
    Option (Bytes × Option Bytes) :=
  (db.commsRequest.find? (createdAt, commsRequestId)).map fun r =>
    (r.destinationCiphertext, r.payloadCiphertext)

/-- Source: `load_verified_at`. -/
def loadVerifiedAt (db : TenantDb) (addressId : Uuid) : Option Time :=
  (db.gates.customerAddress.find? addressId).bind (·.verifiedAt)

/-- Source: `load_customer_timezone`. -/
def loadCustomerTimezone (db : TenantDb) (customerId : Uuid) : Option String :=
  (db.gates.customer.find? customerId).map (·.timezone)

/-- Source: `is_suppressed`. -/
def isSuppressed (db : TenantDb) (now createdAt : Time) (commsRequestId : Uuid) : Bool :=
  db.commsRequest.rows.any fun cr =>
    cr.createdAt = createdAt && cr.id = commsRequestId &&
      db.gates.suppression.rows.any fun s =>
        s.destinationHmac = cr.destinationHmac && s.reviewAt > now

/-- Source: `is_consented`. -/
def isConsented (db : TenantDb) (addressId : Uuid) (msgClass : MsgClass) : Bool :=
  ((db.gates.consent.find? (addressId, msgClass)).map (·.optedIn)).getD false

/-- The fresh `cancelled_at IS NOT NULL` of a row, `none` (`RowNotFound`) when the row is gone. -/
def isCancelled (db : TenantDb) (commsRequestId : Uuid) : Option Bool :=
  (db.outbox.find? commsRequestId).map (·.cancelledAt.isSome)

/-! ## Writes -/

/-- Source: `record_event`. -/
def recordEvent (db : TenantDb) (now : Time) (commsRequestId customerId : Uuid)
    (eventType : Status) : TenantDb :=
  db.insertEvent ⟨commsRequestId, customerId, now, eventType, "", none, none⟩

/-- Source: `reschedule_retry`. -/
def rescheduleRetry (db : TenantDb) (commsRequestId : Uuid) (nextAttemptAt : Time) :
    TenantDb :=
  { db with
    outbox := db.outbox.update (·.commsRequestId = commsRequestId)
      (fun r => { r with leasedUntil := none, nextAttemptAt := nextAttemptAt }) fun _ => rfl }

/-- Source: `clear_stale_leases`. -/
def clearStaleLeases (db : TenantDb) : TenantDb :=
  { db with
    outbox := db.outbox.update (·.leasedUntil.isSome)
      (fun r => { r with leasedUntil := none }) fun _ => rfl }

/-- The one transaction that ends a row: its event, its `final_status`, its removal from the queue.
-/
def writeTerminal (db : TenantDb) (now createdAt : Time) (commsRequestId customerId : Uuid)
    (eventType : Status) (providerRef providerStatus : Option String) (finalStatus : Status) :
    TenantDb :=
  let db := db.insertEvent
    ⟨commsRequestId, customerId, now, eventType, providerRef.getD "", providerStatus, none⟩
  let db := db.setFinalStatus createdAt commsRequestId finalStatus now
  { db with outbox := db.outbox.delete (·.commsRequestId = commsRequestId) }

section
variable {db : TenantDb} {id customerId : Uuid} {r : OutboxRow} {now createdAt : Time}

/-- The cancellation check of a row that is queued. -/
theorem isCancelled_of_mem (hr : r ∈ db.outbox) :
    isCancelled db r.commsRequestId = some r.cancelledAt.isSome := by
  rw [isCancelled, find?_of_mem hr, Option.map_some]

/-- A terminal write takes the row out of the queue and leaves the others. -/
theorem mem_writeTerminal {eventType finalStatus : Status}
    {providerRef providerStatus : Option String} :
    r ∈ (writeTerminal db now createdAt id customerId eventType providerRef providerStatus
      finalStatus).outbox ↔ r ∈ db.outbox ∧ r.commsRequestId ≠ id := by
  rw [writeTerminal, mem_delete, decide_eq_false_iff_not, setFinalStatus_outbox, insertEvent_outbox]

/-- A row after a reschedule is another row, or the one named without its lease. -/
theorem mem_rescheduleRetry {nextAttemptAt : Time} :
    r ∈ (rescheduleRetry db id nextAttemptAt).outbox ↔
      (r ∈ db.outbox ∧ r.commsRequestId ≠ id) ∨
      ∃ r0 ∈ db.outbox, r0.commsRequestId = id ∧
        r = { r0 with leasedUntil := none, nextAttemptAt := nextAttemptAt } := by
  simp only [rescheduleRetry, mem_update, decide_eq_true_eq, decide_eq_false_iff_not, ne_eq]

/-- A row after the sweep is a row before, without its lease. -/
theorem mem_clearStaleLeases :
    r ∈ (clearStaleLeases db).outbox ↔ ∃ r0 ∈ db.outbox, r = { r0 with leasedUntil := none } := by
  simp only [clearStaleLeases, mem_update, Option.isSome_eq_false_iff, Option.isNone_iff_eq_none]
  constructor
  · rintro (⟨hr, hn⟩ | ⟨r0, hr0, -, rfl⟩)
    · exact ⟨r, hr, by rw [← hn]⟩
    · exact ⟨r0, hr0, rfl⟩
  · rintro ⟨r0, hr0, rfl⟩
    cases hl : r0.leasedUntil with
    | none => exact .inl ⟨by rw [← hl]; exact hr0, rfl⟩
    | some leasedUntil => exact .inr ⟨r0, hr0, by rw [hl]; rfl, rfl⟩

end

end Messgr
