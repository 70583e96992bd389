import Messgr.Dispatcher.Repo
import Messgr.Lib.Run
import Messgr.Receipts.Repo

/-!
# Ledger and queue agree

`comms_request` is the record of every message and `outbox` the queue of those still to be sent.
`TenantDb.Agrees` links the two: a queued row has its open request, an open request is queued, and
an event that carries a provider's reference belongs to a request that is settled. Each statement of
the services keeps it. `LedgerState` runs the statements of all services in any order, with the
rows, matches and records that callers hold while others write, and `ledger_queue_agree` is the law
for every run.
-/

namespace Messgr

open List Table

namespace TenantDb

/-- A request with this id and creation time, as an outbox row refers to it. -/
def Has (db : TenantDb) (id : Uuid) (createdAt : Time) : Prop :=
  ∃ r ∈ db.commsRequest, r.id = id ∧ r.createdAt = createdAt

/-- A request with this id that has its final status. -/
def Settled (db : TenantDb) (id : Uuid) : Prop :=
  ∃ r ∈ db.commsRequest, r.id = id ∧ r.finalStatus ≠ none

/-- The link between ledger and queue. -/
structure Agrees (db : TenantDb) : Prop where
  unique : ∀ r ∈ db.commsRequest, ∀ r' ∈ db.commsRequest, r.id = r'.id → r = r'
  request : ∀ o ∈ db.outbox, ∃ r ∈ db.commsRequest, r.id = o.commsRequestId ∧
    r.createdAt = o.createdAt ∧ r.customerId = o.customerId ∧ r.finalStatus = none
  queued : ∀ r ∈ db.commsRequest, r.finalStatus = none → ∃ o ∈ db.outbox, o.commsRequestId = r.id
  referenced : ∀ e ∈ db.commsEvent, e.providerRef ≠ "" → db.Settled e.commsRequestId

/-- No request is lost and no settled one is opened again. -/
def Evolves (db db' : TenantDb) : Prop :=
  ∀ r ∈ db.commsRequest, ∃ r' ∈ db'.commsRequest, r'.id = r.id ∧ r'.createdAt = r.createdAt ∧
    (r.finalStatus ≠ none → r'.finalStatus ≠ none)

section
variable {db db' : TenantDb} {id : Uuid} {createdAt now : Time} {status : Status}

theorem Evolves.of_eq (h : db'.commsRequest = db.commsRequest) : db.Evolves db' :=
  fun r hr => ⟨r, h ▸ hr, rfl, rfl, fun hf => hf⟩

theorem Evolves.has (he : db.Evolves db') (h : db.Has id createdAt) : db'.Has id createdAt := by
  obtain ⟨r, hr, rfl, rfl⟩ := h
  obtain ⟨r', hr', hid, hc, -⟩ := he r hr
  exact ⟨r', hr', hid, hc⟩

theorem Evolves.settled (he : db.Evolves db') (h : db.Settled id) : db'.Settled id := by
  obtain ⟨r, hr, rfl, hf⟩ := h
  obtain ⟨r', hr', hid, -, hf'⟩ := he r hr
  exact ⟨r', hr', hid, hf' hf⟩

/-- A settled request is not queued. -/
theorem Agrees.ne_of_settled (h : db.Agrees) (hs : db.Settled id) {o : OutboxRow}
    (ho : o ∈ db.outbox) : o.commsRequestId ≠ id := by
  rintro rfl
  obtain ⟨r, hr, hid, hf⟩ := hs
  obtain ⟨r', hr', hid', -, -, hf'⟩ := h.request o ho
  exact hf (h.unique r hr r' hr' (hid.trans hid'.symm) ▸ hf')

/-- The outbox row of a request refers to it. -/
theorem Agrees.has (h : db.Agrees) {o : OutboxRow} (ho : o ∈ db.outbox) :
    db.Has o.commsRequestId o.createdAt := by
  obtain ⟨r, hr, hid, hc, -, -⟩ := h.request o ho
  exact ⟨r, hr, hid, hc⟩

/-! ## Statements on the queue alone -/

/-- The queue holds the rows of the same messages and nothing else changed. -/
structure SameQueue (db db' : TenantDb) : Prop where
  commsRequest : db'.commsRequest = db.commsRequest
  commsEvent : db'.commsEvent = db.commsEvent
  back : ∀ o' ∈ db'.outbox, ∃ o ∈ db.outbox, o.commsRequestId = o'.commsRequestId ∧
    o.createdAt = o'.createdAt ∧ o.customerId = o'.customerId
  forth : ∀ o ∈ db.outbox, ∃ o' ∈ db'.outbox, o'.commsRequestId = o.commsRequestId

/-- A queue of the same messages keeps the law. -/
theorem Agrees.of_sameQueue (h : db.Agrees) (hq : SameQueue db db') : db'.Agrees where
  unique := hq.commsRequest ▸ h.unique
  request o' ho' := by
    obtain ⟨o, ho, hid, hc, hcu⟩ := hq.back o' ho'
    rw [hq.commsRequest, ← hid, ← hc, ← hcu]
    exact h.request o ho
  queued r hr hf := by
    obtain ⟨o, ho, hid⟩ := h.queued r (hq.commsRequest ▸ hr) hf
    obtain ⟨o', ho', hid'⟩ := hq.forth o ho
    exact ⟨o', ho', hid'.trans hid⟩
  referenced e he hne :=
    (Evolves.of_eq hq.commsRequest).settled (h.referenced e (hq.commsEvent ▸ he) hne)

/-- An `UPDATE` of the queue that keeps what identifies a message. -/
theorem sameQueue_update {p : OutboxRow → Bool} {f : OutboxRow → OutboxRow}
    {hf : ∀ o, (f o).commsRequestId = o.commsRequestId}
    (hc : ∀ o, (f o).createdAt = o.createdAt ∧ (f o).customerId = o.customerId) :
    SameQueue db { db with outbox := db.outbox.update p f hf } where
  commsRequest := rfl
  commsEvent := rfl
  back o' ho' := by
    rcases (mem_update hf).1 ho' with ⟨ho, -⟩ | ⟨o, ho, -, rfl⟩
    · exact ⟨o', ho, rfl, rfl, rfl⟩
    · exact ⟨o, ho, (hf o).symm, (hc o).1.symm, (hc o).2.symm⟩
  forth o ho := by
    cases hp : p o with
    | false => exact ⟨o, (mem_update hf).2 (.inl ⟨ho, hp⟩), rfl⟩
    | true => exact ⟨f o, (mem_update hf).2 (.inr ⟨o, ho, hp, rfl⟩), hf o⟩

theorem sameQueue_lease (ids : List Uuid) (leasedUntil : Time) :
    SameQueue db (db.lease ids leasedUntil) :=
  sameQueue_update fun _ => ⟨rfl, rfl⟩

theorem sameQueue_rescheduleRetry (id : Uuid) (nextAttemptAt : Time) :
    SameQueue db (rescheduleRetry db id nextAttemptAt) :=
  sameQueue_update fun _ => ⟨rfl, rfl⟩

theorem sameQueue_clearStaleLeases : SameQueue db (clearStaleLeases db) :=
  sameQueue_update fun _ => ⟨rfl, rfl⟩

theorem sameQueue_cancelOutbox (now : Time) (id producerId : Uuid) :
    SameQueue db (cancelOutbox db now id producerId).2 :=
  sameQueue_update fun _ => ⟨rfl, rfl⟩

/-! ## Statements on the ledger -/

theorem evolves_setFinalStatus : db.Evolves (db.setFinalStatus createdAt id status now) := by
  intro r hr
  by_cases h : r.createdAt = createdAt ∧ r.id = id
  · exact ⟨_, mem_setFinalStatus.2 (.inr ⟨r, hr, h, rfl⟩), rfl, rfl, fun _ => nofun⟩
  · exact ⟨r, mem_setFinalStatus.2 (.inl ⟨hr, h⟩), rfl, rfl, fun hf => hf⟩

/-- Requests after a change of status have distinct ids when they had before. -/
theorem unique_setFinalStatus
    (h : ∀ r ∈ db.commsRequest, ∀ r' ∈ db.commsRequest, r.id = r'.id → r = r') :
    ∀ r ∈ (db.setFinalStatus createdAt id status now).commsRequest,
      ∀ r' ∈ (db.setFinalStatus createdAt id status now).commsRequest, r.id = r'.id → r = r' := by
  intro r hr r' hr' heq
  rcases mem_setFinalStatus.1 hr with ⟨h0, hn⟩ | ⟨r0, h0, hy, rfl⟩ <;>
    rcases mem_setFinalStatus.1 hr' with ⟨h1, hn'⟩ | ⟨r1, h1, hy', rfl⟩
  · exact h r h0 r' h1 heq
  · exact absurd (h r h0 r1 h1 heq ▸ hy') hn
  · exact absurd (h r0 h0 r' h1 heq ▸ hy) hn'
  · rw [h r0 h0 r1 h1 heq]

/-- An event needs its request settled only when it carries a reference. -/
theorem Agrees.insertEvent (h : db.Agrees) {e : CommsEvent}
    (he : e.providerRef ≠ "" → db.Settled e.commsRequestId) : (db.insertEvent e).Agrees where
  unique := by simpa using h.unique
  request := by simpa using h.request
  queued := by simpa using h.queued
  referenced x hx hne := by
    refine (Evolves.of_eq (insertEvent_commsRequest (e := e))).settled ?_
    rcases mem_insertEvent hx with hx | rfl
    · exact h.referenced x hx hne
    · exact he hne

/-- A status over a status leaves the queue alone. -/
theorem Agrees.setFinalStatus (h : db.Agrees) (hs : db.Settled id) :
    (db.setFinalStatus createdAt id status now).Agrees where
  unique := unique_setFinalStatus h.unique
  request o ho := by
    obtain ⟨r, hr, hid, hrest⟩ := h.request o ho
    have hne : r.id ≠ id := fun h' => h.ne_of_settled hs ho (hid.symm.trans h')
    exact ⟨r, mem_setFinalStatus.2 (.inl ⟨hr, fun hy => hne hy.2⟩), hid, hrest⟩
  queued r hr hf := by
    rcases mem_setFinalStatus.1 hr with ⟨hr, -⟩ | ⟨r0, -, -, rfl⟩
    · exact h.queued r hr hf
    · cases hf
  referenced e he hne := evolves_setFinalStatus.settled (h.referenced e he hne)

theorem evolves_writeTerminal {customerId : Uuid} {eventType : Status}
    {providerRef providerStatus : Option String} :
    db.Evolves (writeTerminal db now createdAt id customerId eventType providerRef providerStatus
      status) := by
  intro r hr
  exact @evolves_setFinalStatus (db.insertEvent _) _ _ _ _ r (by simpa using hr)

section
variable (h : db.Agrees)
include h

/-- The end of a message, of a row that refers to a request, queued or not. -/
theorem Agrees.writeTerminal (hr : db.Has id createdAt) {customerId : Uuid}
    {eventType : Status} {providerRef providerStatus : Option String} :
    (writeTerminal db now createdAt id customerId eventType providerRef providerStatus
      status).Agrees := by
  set e : CommsEvent :=
    ⟨id, customerId, now, eventType, providerRef.getD "", providerStatus, none⟩ with he
  have hmem : ∀ {r}, r ∈ (db.insertEvent e).commsRequest ↔ r ∈ db.commsRequest := by simp
  have hset : ((db.insertEvent e).setFinalStatus createdAt id status now).Settled id := by
    obtain ⟨r, hr, hid, hc⟩ := hr
    exact ⟨_, mem_setFinalStatus.2 (.inr ⟨r, hmem.2 hr, ⟨hc, hid⟩, rfl⟩), hid, nofun⟩
  refine ⟨unique_setFinalStatus (by simpa using h.unique), fun o ho => ?_, fun r hr' hf => ?_,
    fun x hx hne => ?_⟩
  · -- a row that stays is another message's, whose request is untouched
    obtain ⟨ho, hne⟩ := mem_delete.1 ho
    obtain ⟨r, hr, hid, hrest⟩ := h.request o (by simpa using ho)
    refine ⟨r, mem_setFinalStatus.2 (.inl ⟨hmem.2 hr, fun hy => ?_⟩), hid, hrest⟩
    exact of_decide_eq_false hne (hid.symm.trans hy.2)
  · -- an open request is not the one just settled, so its row is not the one deleted
    rcases mem_setFinalStatus.1 hr' with ⟨hr', hn⟩ | ⟨r0, -, -, rfl⟩
    · obtain ⟨o, ho, hid⟩ := h.queued r (hmem.1 hr') hf
      refine ⟨o, mem_delete.2 ⟨by simpa using ho, decide_eq_false fun hoid => hn ?_⟩, hid⟩
      obtain ⟨r1, hr1, hid1, hc1⟩ := hr
      have heq := h.unique r (hmem.1 hr') r1 hr1 (hid.symm.trans (hoid.trans hid1.symm))
      exact ⟨heq ▸ hc1, heq ▸ hid1⟩
    · cases hf
  · rcases mem_insertEvent hx with hx | rfl
    · exact evolves_writeTerminal.settled (h.referenced x hx hne)
    · exact hset

/-- A new message, under an id that no request has. -/
theorem Agrees.insertTransactional {c : NewComms} {outcome : InsertOutcome}
    (hi : insertTransactional db now c = .ok (outcome, db'))
    (hfresh : ∀ r ∈ db.commsRequest, r.id ≠ c.commsRequestId) : db'.Agrees ∧ db.Evolves db' := by
  rcases insertTransactional_ok hi with ⟨rfl, -⟩ | ⟨-, hreq, hout, hev, -⟩
  · exact ⟨h, .of_eq rfl⟩
  have hold : db.Evolves db' := fun r hr => ⟨r, (hreq r).2 (.inl hr), rfl, rfl, fun hf => hf⟩
  refine ⟨⟨fun r hr r' hr' heq => ?_, fun o ho => ?_, fun r hr hf => ?_, fun e he hne => ?_⟩, hold⟩
  · rcases (hreq r).1 hr with hr | rfl <;> rcases (hreq r').1 hr' with hr' | rfl
    · exact h.unique r hr r' hr' heq
    · exact absurd heq (hfresh r hr)
    · exact absurd heq.symm (hfresh r' hr')
    · rfl
  · rcases (hout o).1 ho with ho | rfl
    · obtain ⟨r, hr, hrest⟩ := h.request o ho
      exact ⟨r, (hreq r).2 (.inl hr), hrest⟩
    · exact ⟨_, (hreq _).2 (.inr rfl), rfl, rfl, rfl, rfl⟩
  · rcases (hreq r).1 hr with hr | rfl
    · obtain ⟨o, ho, hid⟩ := h.queued r hr hf
      exact ⟨o, (hout o).2 (.inl ho), hid⟩
    · exact ⟨_, (hout _).2 (.inr rfl), rfl⟩
  · exact hold.settled (h.referenced e (hev ▸ he) hne)

theorem Agrees.suppress {hmac : Bytes} {reason : String} : (db.suppress hmac reason now).Agrees :=
  ⟨h.unique, h.request, h.queued, h.referenced⟩

/-- A receipt for a request that is settled. -/
theorem Agrees.insertCommsEvent {m : Match} (hs : db.Settled m.commsRequestId)
    {receipt : Receipt} {ciphertext : Option Bytes} {advance : Bool} :
    (insertCommsEvent db now m receipt ciphertext advance).Agrees ∧
      db.Evolves (insertCommsEvent db now m receipt ciphertext advance) := by
  set e : CommsEvent := ⟨m.commsRequestId, m.customerId, receipt.occurredAt, receipt.eventType,
    receipt.providerRef, receipt.providerStatus, ciphertext⟩ with he
  have h1 := h.insertEvent (e := e) fun _ => hs
  have hev1 : db.Evolves (db.insertEvent e) := .of_eq insertEvent_commsRequest
  have h2 : ∀ db2, db2 = (if advance then (db.insertEvent e).setFinalStatus m.commsRequestCreatedAt
      m.commsRequestId receipt.eventType now else db.insertEvent e) →
      db2.Agrees ∧ db.Evolves db2 := by
    rintro _ rfl
    cases advance with
    | false => exact ⟨h1, hev1⟩
    | true =>
      exact ⟨h1.setFinalStatus (hev1.settled hs), fun r hr =>
        @evolves_setFinalStatus (db.insertEvent e) _ _ _ _ r (by simpa using hr)⟩
  cases hr : autoSuppressReason receipt.eventType with
  | none => simpa only [Messgr.insertCommsEvent, hr] using h2 _ rfl
  | some reason =>
    simp only [Messgr.insertCommsEvent, hr]
    exact ⟨(h2 _ rfl).1.suppress, (h2 _ rfl).2⟩

/-- What `find_match` returns is settled. -/
theorem Agrees.settled_of_findMatch {providerRef : String} {m : Match}
    (hm : findMatch db providerRef = some m) : db.Settled m.commsRequestId := by
  obtain ⟨e, he, hne, r, -, hid, rfl⟩ := findMatch_some hm
  rw [hid]
  exact h.referenced e he hne

/-- A request that is settled from the start, under an id that no request has. -/
theorem Agrees.insert_settled {r : CommsRequest} {requests : Table CommsRequest CommsRequest.key}
    (hi : db.commsRequest.insert? r = some requests) (hf : r.finalStatus ≠ none)
    (hfresh : ∀ r' ∈ db.commsRequest, r'.id ≠ r.id) :
    { db with commsRequest := requests }.Agrees ∧
      db.Evolves { db with commsRequest := requests } := by
  have hmem := (insert?_some hi).2
  have hold : db.Evolves { db with commsRequest := requests } :=
    fun x hx => ⟨x, (hmem x).2 (.inl hx), rfl, rfl, fun hf => hf⟩
  refine ⟨⟨fun x hx x' hx' heq => ?_, fun o ho => ?_, fun x hx hxf => ?_, fun e he hne => ?_⟩, hold⟩
  · rcases (hmem x).1 hx with hx | rfl <;> rcases (hmem x').1 hx' with hx' | rfl
    · exact h.unique x hx x' hx' heq
    · exact absurd heq (hfresh x hx)
    · exact absurd heq.symm (hfresh x' hx')
    · rfl
  · obtain ⟨x, hx, hrest⟩ := h.request o ho
    exact ⟨x, (hmem x).2 (.inl hx), hrest⟩
  · rcases (hmem x).1 hx with hx | rfl
    · exact h.queued x hx hxf
    · exact absurd hxf hf
  · exact hold.settled (h.referenced e he hne)

/-- An audit record under a fresh id, or that of its own request from an earlier attempt. -/
theorem Agrees.writeAuditRecord {a : AuditRecord}
    (ha : (∀ r ∈ db.commsRequest, r.id ≠ a.commsRequestId) ∨
      db.Has a.commsRequestId a.createdAt ∧ db.Settled a.commsRequestId) :
    (writeAuditRecord db now a).Agrees ∧ db.Evolves (writeAuditRecord db now a) ∧
      (writeAuditRecord db now a).Has a.commsRequestId a.createdAt ∧
      (writeAuditRecord db now a).Settled a.commsRequestId := by
  -- after the first statement the request is there and settled
  have key : ∀ db1 : TenantDb, db1.Agrees → db.Evolves db1 →
      db1.Has a.commsRequestId a.createdAt → db1.Settled a.commsRequestId →
      ∀ e : CommsEvent, e.commsRequestId = a.commsRequestId →
        (db1.insertEvent e).Agrees ∧ db.Evolves (db1.insertEvent e) ∧
          (db1.insertEvent e).Has a.commsRequestId a.createdAt ∧
          (db1.insertEvent e).Settled a.commsRequestId := by
    intro db1 h1 hev hhas hset e he
    have hsame : db1.Evolves (db1.insertEvent e) := .of_eq insertEvent_commsRequest
    exact ⟨h1.insertEvent fun _ => he ▸ hset, fun r hr => by simpa using hev r hr,
      hsame.has hhas, hsame.settled hset⟩
  unfold Messgr.writeAuditRecord
  cases hi : db.commsRequest.insert? (a.request now) with
  | some requests =>
    have hmem := insert?_some hi
    have hfresh : ∀ r ∈ db.commsRequest, r.id ≠ a.commsRequestId := by
      refine ha.resolve_right fun hh => ?_
      obtain ⟨⟨r, hr, hid, hc⟩, -⟩ := hh
      exact hmem.1 r hr (by simp [CommsRequest.key, AuditRecord.request, hid, hc])
    obtain ⟨h1, hev⟩ := h.insert_settled hi nofun hfresh
    exact key _ h1 hev ⟨_, (hmem.2 _).2 (.inr rfl), rfl, rfl⟩
      ⟨_, (hmem.2 _).2 (.inr rfl), rfl, nofun⟩ _ rfl
  | none =>
    have hh : db.Has a.commsRequestId a.createdAt ∧ db.Settled a.commsRequestId := by
      refine ha.resolve_left fun hfresh => ?_
      obtain ⟨r, hr, hk⟩ := insert?_none hi
      exact hfresh r hr (congrArg Prod.snd hk)
    exact key db h (.of_eq rfl) hh.1 hh.2 _ rfl

end

end

end TenantDb

/-! ## All services on one database -/

/-- A tenant's database, with what callers may still write with: the rows that claims returned, the
matches of receipts and the audit records written at least once. -/
structure LedgerState where
  db : TenantDb
  handed : List OutboxRow
  matched : List (String × Match)
  audited : List AuditRecord

/-- A database just provisioned. -/
def LedgerState.empty : LedgerState := ⟨.empty, [], [], []⟩

/-- A transaction of one of the services. An id is fresh where the services mint it
(`Uuid::new_v4`); `abort` is any transaction that does not commit. -/
inductive LedgerAct
  | insert (now : Time) (c : NewComms)
  | claim (now : Time) (channel : String) (limit : Nat) (leasedUntil : Time)
      (exclusion : ChannelExclusion) (pick : Pick)
  | claimForScope (now : Time) (channel : Option String) (s : KillSwitch) (limit : Nat)
      (leasedUntil : Time) (exclusion : ChannelExclusion) (pick : Pick)
  | rescheduleRetry (id : Uuid) (nextAttemptAt : Time)
  | clearStaleLeases
  | cancel (now : Time) (id producerId : Uuid)
  | writeTerminal (row : OutboxRow) (now : Time) (eventType : Status)
      (providerRef providerStatus : Option String) (finalStatus : Status)
  | recordEvent (row : OutboxRow) (now : Time) (eventType : Status)
  | findMatch (providerRef : String)
  | promote (now : Time) (m : Match) (receipt : Receipt) (ciphertext : Option Bytes)
  | writeAuditRecord (now : Time) (a : AuditRecord)
  | abort

/-- The law with what callers hold: handed rows refer to requests, matched and audited requests
are settled. -/
structure LedgerState.Agrees (s : LedgerState) : Prop where
  db : s.db.Agrees
  handed : ∀ row ∈ s.handed, s.db.Has row.commsRequestId row.createdAt
  matched : ∀ x ∈ s.matched, s.db.Settled x.2.commsRequestId
  audited : ∀ a ∈ s.audited, s.db.Has a.commsRequestId a.createdAt ∧ s.db.Settled a.commsRequestId

section
variable {s t : LedgerState} {db' : TenantDb}

theorem LedgerState.agrees_empty : LedgerState.empty.Agrees := by
  refine ⟨⟨?_, ?_, ?_, ?_⟩, ?_, ?_, ?_⟩
  · exact fun r hr => absurd hr (not_mem_empty r)
  · exact fun o ho => absurd ho (not_mem_empty o)
  · exact fun r hr => absurd hr (not_mem_empty r)
  · exact fun e he => absurd he (not_mem_empty e)
  all_goals exact fun _ h => absurd h not_mem_nil

/-- A transaction after which the database agrees and no request was lost. -/
theorem LedgerState.Agrees.evolve (h : s.Agrees) (hdb : db'.Agrees) (he : s.db.Evolves db') :
    { s with db := db' }.Agrees where
  db := hdb
  handed row hrow := he.has (h.handed row hrow)
  matched x hx := he.settled (h.matched x hx)
  audited a ha := ⟨he.has (h.audited a ha).1, he.settled (h.audited a ha).2⟩

/-- A transaction on the queue alone. -/
theorem LedgerState.Agrees.of_sameQueue (h : s.Agrees) (hq : TenantDb.SameQueue s.db db') :
    { s with db := db' }.Agrees :=
  h.evolve (h.db.of_sameQueue hq) (.of_eq hq.commsRequest)

/-- A claim hands out rows of the queue. -/
theorem LedgerState.Agrees.claimed (h : s.Agrees) {eligible : OutboxRow → Bool}
    {leasedUntil : Time} {ids : List Uuid} {rows : OutboxRows}
    (hc : Claimed s.db eligible leasedUntil ids rows db') :
    { s with db := db', handed := s.handed ++ rows.rows }.Agrees := by
  have hs := h.of_sameQueue (hc.db ▸ TenantDb.sameQueue_lease ids leasedUntil)
  refine { hs with handed := fun row hrow => ?_ }
  rcases mem_append.1 hrow with hrow | hrow
  · exact hs.handed row hrow
  · obtain ⟨r0, hr0, -, rfl⟩ := (hc.mem_rows row).1 hrow
    obtain ⟨r, hr, hid, hcr⟩ := h.db.has hr0
    exact ⟨r, hc.db ▸ hr, hid, hcr⟩

variable [UuidCrate]

/-- One transaction. -/
def LedgerState.step (s : LedgerState) : LedgerAct → Option LedgerState
  | .insert now c =>
    if s.db.commsRequest.rows.any (·.id = c.commsRequestId) then none
    else
      match insertTransactional s.db now c with
      | .ok (_, db) => some { s with db := db }
      | .error _ => some s
  | .claim now channel limit leasedUntil exclusion pick =>
    (claim s.db now channel limit leasedUntil exclusion pick).map fun (rows, db) =>
      { s with db := db, handed := s.handed ++ rows.rows }
  | .claimForScope now channel switch limit leasedUntil exclusion pick =>
    (claimForScope s.db now channel switch limit leasedUntil exclusion pick).map fun (rows, db) =>
      { s with db := db, handed := s.handed ++ rows.rows }
  | .rescheduleRetry id nextAttemptAt =>
    some { s with db := rescheduleRetry s.db id nextAttemptAt }
  | .clearStaleLeases => some { s with db := clearStaleLeases s.db }
  | .cancel now id producerId => some { s with db := (cancelOutbox s.db now id producerId).2 }
  | .writeTerminal row now eventType providerRef providerStatus finalStatus =>
    if row ∈ s.handed then
      some { s with
        db := writeTerminal s.db now row.createdAt row.commsRequestId row.customerId eventType
          providerRef providerStatus finalStatus }
    else none
  | .recordEvent row now eventType =>
    if row ∈ s.handed then
      some { s with db := recordEvent s.db now row.commsRequestId row.customerId eventType }
    else none
  | .findMatch providerRef =>
    match findMatch s.db providerRef with
    | some m => some { s with matched := s.matched ++ [(providerRef, m)] }
    | none => some s
  | .promote now m receipt ciphertext =>
    if (receipt.providerRef, m) ∈ s.matched ∧ isRecognizedEventType receipt.eventType then
      some { s with db := promoteMatch s.db now m receipt ciphertext }
    else none
  | .writeAuditRecord now a =>
    if a ∉ s.audited ∧ s.db.commsRequest.rows.any (·.id = a.commsRequestId) then none
    else some { s with db := writeAuditRecord s.db now a, audited := s.audited ++ [a] }
  | .abort => some s

/-- Every transaction of every service keeps the law. -/
theorem LedgerState.Agrees.step {a : LedgerAct} (h : s.Agrees) (hs : s.step a = some t) :
    t.Agrees := by
  cases a with
  | insert now c =>
    simp only [LedgerState.step] at hs
    split at hs
    · cases hs
    · next hfresh =>
      have hfresh : ∀ r ∈ s.db.commsRequest, r.id ≠ c.commsRequestId := by
        simpa [mem_def] using hfresh
      split at hs
      · next hi =>
        cases hs
        obtain ⟨hdb, he⟩ := h.db.insertTransactional hi hfresh
        exact h.evolve hdb he
      · cases hs; exact h
  | claim now channel limit leasedUntil exclusion pick =>
    obtain ⟨⟨rows, db'⟩, hc, rfl⟩ := Option.map_eq_some_iff.1 hs
    exact h.claimed (claim_spec hc)
  | claimForScope now channel switch limit leasedUntil exclusion pick =>
    obtain ⟨⟨rows, db'⟩, hc, rfl⟩ := Option.map_eq_some_iff.1 hs
    exact h.claimed (claimForScope_spec hc)
  | rescheduleRetry id nextAttemptAt =>
    cases hs; exact h.of_sameQueue (TenantDb.sameQueue_rescheduleRetry id nextAttemptAt)
  | clearStaleLeases => cases hs; exact h.of_sameQueue TenantDb.sameQueue_clearStaleLeases
  | cancel now id producerId =>
    cases hs; exact h.of_sameQueue (TenantDb.sameQueue_cancelOutbox now id producerId)
  | writeTerminal row now eventType providerRef providerStatus finalStatus =>
    simp only [LedgerState.step] at hs
    split at hs
    · next hrow =>
      cases hs
      exact h.evolve (h.db.writeTerminal (h.handed row hrow)) TenantDb.evolves_writeTerminal
    · cases hs
  | recordEvent row now eventType =>
    simp only [LedgerState.step] at hs
    split at hs
    · cases hs
      exact h.evolve (h.db.insertEvent fun hne => absurd rfl hne) (.of_eq insertEvent_commsRequest)
    · cases hs
  | findMatch providerRef =>
    simp only [LedgerState.step] at hs
    split at hs
    · next m hm =>
      cases hs
      refine { h with matched := fun x hx => ?_ }
      rcases mem_append.1 hx with hx | hx
      · exact h.matched x hx
      · obtain rfl := mem_singleton.1 hx
        exact h.db.settled_of_findMatch hm
    · cases hs; exact h
  | promote now m receipt ciphertext =>
    simp only [LedgerState.step] at hs
    split at hs
    · next hm =>
      cases hs
      obtain ⟨hdb, he⟩ := h.db.insertCommsEvent (h.matched _ hm.1)
      exact h.evolve hdb he
    · cases hs
  | writeAuditRecord now a =>
    simp only [LedgerState.step] at hs
    split at hs
    · cases hs
    · next hfresh =>
      cases hs
      have ha : (∀ r ∈ s.db.commsRequest, r.id ≠ a.commsRequestId) ∨
          s.db.Has a.commsRequestId a.createdAt ∧ s.db.Settled a.commsRequestId := by
        by_cases hmem : a ∈ s.audited
        · exact .inr (h.audited a hmem)
        · exact .inl (by simpa [hmem, mem_def] using hfresh)
      obtain ⟨hdb, he, hhas, hset⟩ := h.db.writeAuditRecord ha
      refine { h.evolve hdb he with audited := fun x hx => ?_ }
      rcases mem_append.1 hx with hx | hx
      · exact (h.evolve hdb he).audited x hx
      · obtain rfl := mem_singleton.1 hx
        exact ⟨hhas, hset⟩
  | abort => cases hs; exact h

/-- In every state that the services reach from an empty database, in any interleaving of their
transactions, committed or not: a request (outside `auth`, which never enters the queue) has no
final status exactly when it has exactly one outbox row; that row carries the request's creation
time and customer; and every outbox row has its request. -/
theorem ledger_queue_agree {as : List LedgerAct}
    (h : Run.Steps LedgerState.step Run.Any .empty as s) :
    (∀ r ∈ s.db.commsRequest, r.msgClass ≠ .auth →
      (r.finalStatus = none ↔ ∃! o, o ∈ s.db.outbox ∧ o.commsRequestId = r.id) ∧
      ∀ o ∈ s.db.outbox, o.commsRequestId = r.id →
        o.createdAt = r.createdAt ∧ o.customerId = r.customerId) ∧
    ∀ o ∈ s.db.outbox, ∃ r ∈ s.db.commsRequest, r.id = o.commsRequestId := by
  have hs : s.Agrees := h.inv (fun _ _ _ _ hstep ha => ha.step hstep) LedgerState.agrees_empty
  -- the request that the ledger has for an outbox row is the one with its id
  have hreq : ∀ r ∈ s.db.commsRequest, ∀ o ∈ s.db.outbox, o.commsRequestId = r.id →
      r.finalStatus = none ∧ o.createdAt = r.createdAt ∧ o.customerId = r.customerId := by
    intro r hr o ho hid
    obtain ⟨r', hr', hid', hc, hcu, hf⟩ := hs.db.request o ho
    obtain rfl := hs.db.unique r' hr' r hr (hid'.trans hid)
    exact ⟨hf, hc.symm, hcu.symm⟩
  refine ⟨fun r hr _ => ⟨⟨fun hf => ?_, fun ⟨o, ⟨ho, hid⟩, _⟩ => ?_⟩, fun o ho hid => ?_⟩,
    fun o ho => ?_⟩
  · obtain ⟨o, ho, hid⟩ := hs.db.queued r hr hf
    exact ⟨o, ⟨ho, hid⟩, fun o' ⟨ho', hid'⟩ => Table.eq_of_key ho' ho (hid'.trans hid.symm)⟩
  · exact (hreq r hr o ho hid).1
  · exact (hreq r hr o ho hid).2
  · obtain ⟨r, hr, hid, -⟩ := hs.db.request o ho
    exact ⟨r, hr, hid⟩

end

/-- Two messages: the first is claimed, sent, and advanced by a receipt that was matched before a
late terminal write of the same claim; the second stays queued. -/
def sampleLedgerRun : List LedgerAct :=
  let row := ((NewComms.sample ⟨10⟩ "a").outboxRow 0).leased 60
  [.insert 0 (.sample ⟨10⟩ "a"), .insert 1 (.sample ⟨11⟩ "b"),
   .claim 5 "sms" 1 60 .default ⟨[⟨10⟩], by decide, []⟩,
   .writeTerminal row 6 .sent (some "ref") none .sent, .findMatch "ref",
   .writeTerminal row 7 .failed none none .failed,
   .promote 8 ⟨⟨10⟩, 0, ⟨1⟩, some .sent, []⟩ ⟨"ref", .delivered, none, 8⟩ none, .clearStaleLeases]

theorem ledger_queue_agree_sampleLedgerRun :
    ∃ s, Run.Steps (@LedgerState.step .sample) Run.Any .empty sampleLedgerRun s ∧
      (s.db.commsRequest.rows.map fun r => (r.id, r.finalStatus)) =
        [(⟨10⟩, some .delivered), (⟨11⟩, none)] ∧
      s.db.outbox.rows.map (·.commsRequestId) = [⟨11⟩] ∧
      ∀ o ∈ s.db.outbox, ∃ r ∈ s.db.commsRequest, r.id = o.commsRequestId := by
  obtain ⟨s, hs, hp⟩ := Run.Steps.exists_of_exec (@LedgerState.step .sample) .empty
    sampleLedgerRun (fun s =>
      (s.db.commsRequest.rows.map fun r => (r.id, r.finalStatus)) =
        [(⟨10⟩, some .delivered), (⟨11⟩, none)] ∧
      s.db.outbox.rows.map (·.commsRequestId) = [⟨11⟩]) (by decide)
  have hp := of_decide_eq_true hp
  exact ⟨s, hs, hp.1, hp.2, (@ledger_queue_agree s .sample _ hs).2⟩

end Messgr
