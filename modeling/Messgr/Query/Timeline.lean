import Messgr.Customer.Alias

/-!
# The timeline of a customer

`query-api` lists the requests under every id that was merged into a customer's. Of a customer that
was not merged itself, these are the requests whose own id expands to it (`timeline_dual`).

A person of the customer service may see the customer that they are. The list checks that for the
customer that is asked for, the detail of a request for the id that the request is stored under. So
of what is listed just the requests under the customer's own id can be opened
(`listed_can_be_opened`, `merged_is_refused`).
-/

namespace Messgr.Query

open Ingest List

/-! ## The queries -/

/-- Source: `src/comms_query/model.rs`. -/
structure CommsRequestSummary where
  id : Uuid
  createdAt : Time
  customerId : Uuid
  channel : String
  msgClass : MsgClass
  campaignId : Option String
  producerId : Uuid
  scheduledFor : Option Time
  expiresAt : Option Time
  finalStatus : Option Status
  finalizedAt : Option Time
deriving DecidableEq

/-- The columns of a request that a list shows. Source: `src/comms_query/repo.rs`,
`SUMMARY_COLUMNS`. -/
def summary (r : CommsRequest) : CommsRequestSummary where
  id := r.id
  createdAt := r.createdAt
  customerId := r.customerId
  channel := r.channel
  msgClass := r.msgClass
  campaignId := r.campaignId
  producerId := r.producerId
  scheduledFor := r.scheduledFor
  expiresAt := r.expiresAt
  finalStatus := r.finalStatus
  finalizedAt := r.finalizedAt

/-- The requests under any of the ids, the latest first. Source: `repo.rs`,
`timeline`, the query without its `LIMIT`. -/
def requestsOf (ids : List Uuid) (rows : List Row) : List CommsRequest :=
  ((rows.filterMap Row.commsRequest?).filter (·.customerId ∈ ids)).mergeSort
    fun a b => decide (b.createdAt ≤ a.createdAt)

/-- Source: `repo.rs`. -/
def timeline (canonicalCustomerId : Uuid) (limit : Nat) : Program (List CommsRequestSummary) := do
  let ids ← Program.aliasSet canonicalCustomerId
  Program.select fun rows => ((requestsOf ids rows).take limit).map summary

/-- Source: `repo.rs`. -/
def detail (createdAt : Time) (id : Uuid) : Program (Option CommsRequest) :=
  Program.fetchOptional Row.commsRequest? fun r => r.createdAt = createdAt && r.id = id

/-! ## The handlers -/

/-- Source: `src/auth/role.rs`. -/
inductive Role
  | customerService
  | compliance
  | campaignOps
  | commsOps
  | admin
deriving DecidableEq

/-- Source: `src/auth/provider.rs`. -/
structure Identity where
  actor : String
  role : Role
deriving DecidableEq

/-- The responses of the handlers. -/
inductive Response (β : Type)
  | ok (body : β)
  | forbidden
  | notFound
  | internalServerError
deriving DecidableEq

/-- Source: `model.rs`. -/
structure CommsRequestDetailView extends CommsRequestSummary where
  destination : String
  body : Option String
deriving DecidableEq

/-- Source: `src/query_api/views.rs`. -/
structure TimelineTemplate where
  actor : String
  role : Role
  customerId : Uuid
  rows : List CommsRequestSummary
deriving DecidableEq

/-- Source: `src/query_api/handlers.rs`, `LIST_LIMIT`. -/
def listLimit : Nat := 200

section
variable [UuidCrate] (identity : Identity)

/-- Source: `handlers.rs`. -/
def identityOwns (customerId : Uuid) : Bool :=
  (UuidCrate.parseStr identity.actor).any (· = customerId)

/-- The check of every handler. Source: `handlers.rs`, `customer_timeline`,
`comms_detail`; `views.rs`, `ui_customer_timeline`. -/
def mayRead (customerId : Uuid) : Bool :=
  match identity.role with
  | .compliance => true
  | .customerService => identityOwns identity customerId
  | _ => false

/-- Source: `handlers.rs`. -/
def customerTimeline (customerId : Uuid) : Program (Response (List CommsRequestSummary)) :=
  if mayRead identity customerId then do
    return .ok (← timeline customerId listLimit)
  else return .forbidden

/-- Source: `views.rs`. -/
def uiCustomerTimeline (customerId : Uuid) : Program (Response TimelineTemplate) :=
  if mayRead identity customerId then do
    let rows ← timeline customerId 200
    return .ok ⟨identity.actor, identity.role, customerId, rows⟩
  else return .forbidden

section
variable [Aes256Gcm]

/-- A ciphertext of a request, as text. -/
def decryptText (dek aad ciphertext : Bytes) : Program String := do
  let bytes ← Program.ofExcept .encryption (decrypt dek aad ciphertext)
  let some text := fromUtf8 bytes | .fail .invalidUtf8
  return text

/-- Source: `handlers.rs`. -/
def decryptDetail (row : CommsRequest) : Program CommsRequestDetailView := do
  let some dekRow ← Program.findDek row.customerId | .fail (.database .rowNotFound)
  let dek ← Program.unwrapDek dekRow.wrappedDek
  let destination ← decryptText dek row.id.asBytes row.destinationCiphertext
  match row.payloadCiphertext with
  | some ciphertext =>
    let body ← decryptText dek row.id.asBytes ciphertext
    return ⟨summary row, destination, some body⟩
  | none => return ⟨summary row, destination, none⟩

/-- Source: `handlers.rs`. -/
def commsDetail (id : Uuid) (createdAt : Time) :
    Program (Response CommsRequestDetailView) := do
  let some row ← detail createdAt id | return .notFound
  if mayRead identity row.customerId then return .ok (← decryptDetail row)
  else return .forbidden

end

end

section
variable [KeyStore] [UuidCrate] {β : Type}

/-- The response of a handler on a database that does not change meanwhile; every error is the same
one. Source: `handlers.rs`, `database_error`, and the `map_err`s of
`decrypt_detail`. -/
def respond (settings : Settings) (db : Db) (handler : Program (Response β)) : Response β :=
  match handler.answered (answer settings db) with
  | some (.ok response) => response
  | _ => .internalServerError

end

/-! ## The list -/

theorem mem_requestsOf {db : Db} {ids : List Uuid} {r : CommsRequest} :
    r ∈ requestsOf ids (db.visible none) ↔ db.Committed (.commsRequest r) ∧ r.customerId ∈ ids := by
  rw [requestsOf, mem_mergeSort, mem_filter, mem_table Row.commsRequest?_eq_some, decide_eq_true_eq]

section
variable [KeyStore] [UuidCrate] {settings : Settings} {db : Db} {c : Uuid}

/-- The ids of the query and the requests under them. -/
theorem exists_answered_timeline : ∃ ids,
    (Program.aliasSet c).answered (answer settings db) = some (.ok ids) ∧
    (∀ x, x ∈ ids ↔ ∃ n ≤ Program.aliasHopLimit, Walk.hop (aliasOf db) n x = some c) ∧
    ∀ limit, (timeline c limit).answered (answer settings db) =
      some (.ok (((requestsOf ids (db.visible none)).take limit).map summary)) := by
  obtain ⟨ids, hids, hmem⟩ := @exists_answered_aliasSet _ _ settings db c
  refine ⟨ids, hids, hmem, fun limit => ?_⟩
  rw [timeline, Prog.answered_bind, hids]
  exact answered_select

/-- For every table of aliases, chains and cycles included, and every id that was not merged into
another: the set of its aliases has exactly the ids that expand to it, and its timeline, before the
limit, exactly the requests whose customer expands to it. -/
theorem timeline_dual (hc : ∀ r, db.Committed (.alias r) → r.oldCustomerId ≠ c) :
    ∃ (ids : List Uuid) (listed : List CommsRequest),
      (Program.aliasSet c).answered (answer settings db) = some (.ok ids) ∧
      (∀ limit, (timeline c limit).answered (answer settings db) =
        some (.ok ((listed.take limit).map summary))) ∧
      (∀ x, x ∈ ids ↔
        (Program.expandAlias Program.aliasHopLimit x).answered (answer settings db) =
          some (.ok c)) ∧
      ∀ r, r ∈ listed ↔ db.Committed (.commsRequest r) ∧
        (Program.expandAlias Program.aliasHopLimit r.customerId).answered (answer settings db) =
          some (.ok c) := by
  have hnone := aliasOf_eq_none.2 hc
  obtain ⟨ids, hids, hmem, htimeline⟩ := @exists_answered_timeline _ _ settings db c
  refine ⟨ids, requestsOf ids (db.visible none), hids, htimeline, fun x => ?_, fun r => ?_⟩
  · rw [hmem, mem_aliasSet_iff hnone]
  · rw [mem_requestsOf, hmem, mem_aliasSet_iff hnone]

end

/-! ## The list and the detail -/

section
variable [KeyStore] [UuidCrate] {β γ : Type} {settings : Settings} {db : Db}

/-- A handler that answers with what a program returns forbids nothing. -/
theorem respond_map_ne_forbidden {p : Program γ} {f : γ → β} :
    respond settings db (do return .ok (f (← p))) ≠ .forbidden := by
  rw [respond, Prog.answered_bind]
  cases p.answered (answer settings db) with
  | none => exact fun h => by cases h
  | some r => cases r <;> exact fun h => by cases h

/-- A handler that forbids has not checked, or was not passed. -/
theorem respond_of_mayRead {identity : Identity} {customerId : Uuid} {b : β}
    {p : Program (Response β)}
    (h : respond settings db (if mayRead identity customerId then p else return .forbidden) =
      .ok b) : mayRead identity customerId = true ∧ respond settings db p = .ok b := by
  split at h
  · next hread => exact ⟨hread, h⟩
  · cases h

/-- Both lists have rows of the timeline, of a customer that the identity may read. -/
theorem of_respond_timeline {identity : Identity} {customerId : Uuid} {limit : Nat}
    {f : List CommsRequestSummary → β} {b : β}
    (h : respond settings db (if mayRead identity customerId then do
        return .ok (f (← timeline customerId limit)) else return .forbidden) = .ok b) :
    mayRead identity customerId = true ∧
      ∃ rows, b = f rows ∧ ∀ row ∈ rows, ∃ r, db.Committed (.commsRequest r) ∧ row = summary r := by
  obtain ⟨hread, h⟩ := respond_of_mayRead h
  obtain ⟨ids, -, -, htimeline⟩ := @exists_answered_timeline _ _ settings db customerId
  rw [respond, Prog.answered_bind, htimeline] at h
  cases h
  refine ⟨hread, _, rfl, fun row hrow => ?_⟩
  obtain ⟨r, hr, rfl⟩ := mem_map.1 hrow
  exact ⟨r, (mem_requestsOf.1 (mem_of_mem_take hr)).1, rfl⟩

/-- The detail of a request that is there. -/
theorem answered_detail {r : CommsRequest} (hr : db.Committed (.commsRequest r)) :
    (detail r.createdAt r.id).answered (answer settings db) = some (.ok (some r)) := by
  have hkey : ∀ b : CommsRequest,
      (decide (b.createdAt = r.createdAt) && decide (b.id = r.id)) = true →
        Key.commsRequest r.createdAt r.id ∈ (Row.commsRequest b).keys := by
    intro b hb
    simp only [Bool.and_eq_true, decide_eq_true_eq] at hb
    exact mem_singleton.2 (congrArg₂ Key.commsRequest hb.1.symm hb.2.symm)
  rw [detail, Program.fetchOptional, answered_select,
    find?_table Row.commsRequest?_eq_some hr (by simp) hkey]

variable {identity : Identity} {customerId : Uuid} {row : CommsRequestSummary}

/-- A list that the identity asks for has the request. -/
def Lists (settings : Settings) (db : Db) (identity : Identity) (customerId : Uuid)
    (row : CommsRequestSummary) : Prop :=
  (∃ rows, respond settings db (customerTimeline identity customerId) = .ok rows ∧ row ∈ rows) ∨
    ∃ page, respond settings db (uiCustomerTimeline identity customerId) = .ok page ∧
      row ∈ page.rows

/-- What is listed is in the ledger, and the identity may read the customer asked for. -/
theorem Lists.committed (h : Lists settings db identity customerId row) :
    mayRead identity customerId = true ∧ ∃ r, db.Committed (.commsRequest r) ∧ row = summary r := by
  rcases h with ⟨rows, h, hrow⟩ | ⟨page, h, hrow⟩
  · obtain ⟨hread, rows', rfl, hrows⟩ := of_respond_timeline (f := id) h
    exact ⟨hread, hrows row hrow⟩
  · obtain ⟨hread, rows', rfl, hrows⟩ := of_respond_timeline
      (f := TimelineTemplate.mk identity.actor identity.role customerId) h
    exact ⟨hread, hrows row hrow⟩

/-- A request under an id that leads to the customer's is listed, within the limit. -/
theorem lists_of_committed (hread : mayRead identity customerId = true) {r : CommsRequest}
    (hr : db.Committed (.commsRequest r))
    (hhop : ∃ n ≤ Program.aliasHopLimit, Walk.hop (aliasOf db) n r.customerId = some customerId)
    (hlimit : ((db.visible none).filterMap Row.commsRequest?).length ≤ listLimit) :
    Lists settings db identity customerId (summary r) := by
  obtain ⟨ids, -, hmem, htimeline⟩ := @exists_answered_timeline _ _ settings db customerId
  have hlength : (requestsOf ids (db.visible none)).length ≤ listLimit := by
    rw [requestsOf, length_mergeSort]
    exact Nat.le_trans (length_filter_le _ _) hlimit
  refine .inl ⟨(requestsOf ids (db.visible none)).map summary, ?_, ?_⟩
  · rw [customerTimeline, if_pos hread, respond, Prog.answered_bind, htimeline,
      take_of_length_le hlength]
    rfl
  · exact mem_map.2 ⟨r, mem_requestsOf.2 ⟨hr, (hmem _).2 hhop⟩, rfl⟩

variable [Aes256Gcm]

/-- The detail of a request checks the id that it is stored under. -/
theorem respond_commsDetail {r : CommsRequest} (hr : db.Committed (.commsRequest r)) :
    respond settings db (commsDetail identity r.id r.createdAt) = .forbidden ↔
      mayRead identity r.customerId = false := by
  have hdetail : respond settings db (commsDetail identity r.id r.createdAt) =
      respond settings db (if mayRead identity r.customerId then do
        return .ok (← decryptDetail r) else return .forbidden) := by
    rw [respond, respond, commsDetail, Prog.answered_bind, answered_detail hr]
    rfl
  rw [hdetail]
  cases mayRead identity r.customerId with
  | true => exact ⟨fun h => absurd h (respond_map_ne_forbidden (f := id)), fun h => by cases h⟩
  | false => exact ⟨fun _ => rfl, fun _ => rfl⟩

/-- A request that a list shows to a person of the customer service can be opened just if it is
stored under the id that was asked for. -/
theorem listed_can_be_opened (hrole : identity.role = .customerService)
    (h : Lists settings db identity customerId row) :
    respond settings db (commsDetail identity row.id row.createdAt) ≠ .forbidden ↔
      row.customerId = customerId := by
  obtain ⟨hread, r, hr, rfl⟩ := h.committed
  have hmay : ∀ id, mayRead identity id = identityOwns identity id := fun id => by
    rw [mayRead, hrole]
  rw [hmay, identityOwns, Option.any_eq_true] at hread
  obtain ⟨own, hown, heq⟩ := hread
  have heq : own = customerId := by simpa using heq
  rw [Ne, show (summary r).id = r.id from rfl, show (summary r).createdAt = r.createdAt from rfl,
    respond_commsDetail hr, Bool.not_eq_false, hmay, identityOwns, hown, heq]
  exact decide_eq_true_iff.trans eq_comm

end

/-! ### Lists on fixed inputs -/

/-- A request that is stored under an id. -/
def requestUnder (customerId : Uuid) : CommsRequest :=
  ⟨⟨0⟩, ⟨7⟩, 5, customerId, "sms", .transactional, none, [], [], none, ⟨3⟩, none, none, none, none⟩

/-- The customer `1` was merged into the customer `2`, and there is one request. -/
def merged (customerId : Uuid) : Db where
  entries := [⟨none, .customer ⟨⟨2⟩, "en", "UTC", false, none, 0⟩⟩, ⟨none, .alias ⟨⟨1⟩, ⟨2⟩⟩⟩,
    ⟨none, .commsRequest (requestUnder customerId)⟩]
  locks := []
  distinct := by simp [Tx.Clash, Tx.Schema.keys, Row.keys]
  closed := by
    simp [Tx.Schema.refs, Tx.Schema.keys, Row.refs, Row.keys, Tx.Entry.seenBy]
  exclusive := by simp
  guarded := by simp

/-- Every text is the id `2`. -/
abbrev isTwo : UuidCrate := ⟨fun _ => some ⟨2⟩⟩

def oneTenant : Settings := ⟨⟨0⟩, "transit", [], "en", "UTC", 30⟩

/-- The person who is the customer `2`. -/
def agent : Identity := ⟨"2", .customerService⟩

/-- What the statements answer there. -/
abbrev mergedAnswer (customerId : Uuid) (c : Stmt) : Option (Except CallError c.Answer) :=
  @answer .sample isTwo oneTenant (merged customerId) c

/-- The agent's list has the request. -/
abbrev MergedLists (customerId : Uuid) : Prop :=
  @Lists .sample isTwo oneTenant (merged customerId) agent ⟨2⟩ (summary (requestUnder customerId))

/-- The agent asks for the request. -/
abbrev mergedDetail (customerId : Uuid) : Response CommsRequestDetailView :=
  @respond .sample isTwo _ oneTenant (merged customerId) (@commsDetail isTwo agent .sample ⟨7⟩ 5)

theorem committed_merged (customerId : Uuid) :
    (merged customerId).Committed (.commsRequest (requestUnder customerId)) := by
  simp [Tx.Store.Committed, merged]

/-- The set of the customer `2` has the id `1`, as it expands to `2`. -/
theorem timeline_dual_merged :
    ∃ ids : List Uuid,
      (Program.aliasSet ⟨2⟩).answered (mergedAnswer ⟨1⟩) = some (.ok ids) ∧
      (⟨1⟩ ∈ ids ↔ (Program.expandAlias Program.aliasHopLimit ⟨1⟩).answered (mergedAnswer ⟨1⟩) =
        some (.ok ⟨2⟩)) := by
  have hroot : ∀ r, (merged ⟨1⟩).Committed (.alias r) → r.oldCustomerId ≠ ⟨2⟩ := by
    intro r hr
    simp only [Tx.Store.Committed, merged, List.mem_cons, Tx.Entry.mk.injEq, reduceCtorEq,
      Row.alias.injEq, List.not_mem_nil, and_false, or_false, false_or, true_and] at hr
    subst hr
    decide
  obtain ⟨ids, _, hids, _, hdual, _⟩ := @timeline_dual .sample isTwo oneTenant _ _ hroot
  exact ⟨ids, hids, hdual ⟨1⟩⟩

/-- The request under the id `2` is listed, and can be opened. -/
theorem listed_can_be_opened_own : MergedLists ⟨2⟩ ∧ mergedDetail ⟨2⟩ ≠ .forbidden := by
  have hlists : MergedLists ⟨2⟩ :=
    @lists_of_committed .sample isTwo _ _ _ _ rfl _ (committed_merged ⟨2⟩) ⟨0, by decide, rfl⟩
      (by decide)
  exact ⟨hlists, (@listed_can_be_opened .sample isTwo _ _ _ _ _ .sample rfl hlists).2 rfl⟩

/-- The request under the id `1` is listed, and refused. -/
theorem merged_is_refused : MergedLists ⟨1⟩ ∧ mergedDetail ⟨1⟩ = .forbidden := by
  have hlists : MergedLists ⟨1⟩ :=
    @lists_of_committed .sample isTwo _ _ _ _ rfl _ (committed_merged ⟨1⟩)
      ⟨1, by decide, by decide⟩ (by decide)
  exact ⟨hlists, (@respond_commsDetail .sample isTwo _ _ _ .sample _ (committed_merged ⟨1⟩)).2 rfl⟩

end Messgr.Query
