import Mathlib.Data.List.Induction
import Mathlib.Data.List.Perm.Basic
import Messgr.Receipts.Jobs

/-!
# Where receipts lead a request

`should_advance` (`src/orphan_reconcile/reconcile.rs`) decides whether a receipt sets the
`final_status` of its request. On the statuses in order it is a maximum; an absorbing status always
wins, so that of two absorbing receipts the one processed last stays
(`processAll_bounced_complaint`). Receipts may be permuted while the absorbing ones keep their
order, and lead to the last of these, or else to the furthest status (`processAll_perm`).
-/

namespace Messgr

open List Option

/-! ## Advancing -/

/-- The `final_status` after a receipt that was decided on with the status before. -/
def advanced (current : Option Status) (eventType : Status) : Option Status :=
  if shouldAdvance current eventType then some eventType else current

/-- Positions of `statusOrder`, with what no receipt in order leaves behind them. -/
def finalRank : Option Status → Nat
  | none => 0
  | some .queued => 1
  | some .sent => 2
  | some .delivered => 3
  | some .read => 4
  | some .discarded => 5
  | some _ => 6

/-- Where receipts take a request: to the last absorbing one, or to the furthest of all and its own
status. -/
def Leads (current : Option Status) (l : List Status) (reached : Option Status) : Prop :=
  match (l.filter (· ∈ absorbingStatuses)).getLast? with
  | some a => reached = some a
  | none =>
    (reached = current ∨ ∃ e ∈ l, reached = some e) ∧
      finalRank current ≤ finalRank reached ∧ ∀ e ∈ l, finalRank (some e) ≤ finalRank reached

variable {e : Status} {current : Option Status} {l : List Status}

theorem advanced_absorbing (he : e ∈ absorbingStatuses) : advanced current e = some e := by
  cases current with
  | none => rfl
  | some cur => simp [advanced, shouldAdvance, he]

/-- An absorbing status is left for another absorbing one only. -/
theorem not_shouldAdvance_of_absorbing {a : Status} (ha : a ∈ absorbingStatuses)
    (he : e ∉ absorbingStatuses) : shouldAdvance (some a) e = false := by
  have hnone : statusOrder.idxOf? a = none := by
    revert ha
    cases a <;> decide
  simp [shouldAdvance, he, hnone]

theorem mem_statusOrder_of_recognized (hr : isRecognizedEventType e = true)
    (he : e ∉ absorbingStatuses) : e ∈ statusOrder := by
  simpa [isRecognizedEventType, he] using hr

/-- A receipt in order advances what is before it. -/
theorem shouldAdvance_iff (he : e ∈ statusOrder) :
    shouldAdvance current e = true ↔ finalRank current < finalRank (some e) := by
  simp only [statusOrder, mem_cons, not_mem_nil, or_false] at he
  rcases current with _ | cur
  · rcases he with rfl | rfl | rfl | rfl <;> decide
  · rcases he with rfl | rfl | rfl | rfl <;> cases cur <;> decide

/-- Receipts of statuses in order commute: each keeps the later of two positions. -/
theorem advanced_comm (current : Option Status) {e' : Status} (he : e ∈ statusOrder)
    (he' : e' ∈ statusOrder) :
    advanced (advanced current e) e' = advanced (advanced current e') e := by
  simp only [statusOrder, mem_cons, not_mem_nil, or_false] at he he'
  rcases current with _ | cur
  · rcases he with rfl | rfl | rfl | rfl <;> rcases he' with rfl | rfl | rfl | rfl <;> rfl
  · rcases he with rfl | rfl | rfl | rfl <;> rcases he' with rfl | rfl | rfl | rfl <;>
      cases cur <;> rfl

/-- The last absorbing receipt of a sequence decides it. -/
theorem foldl_advanced_of_getLast? {a : Status}
    (h : (l.filter (· ∈ absorbingStatuses)).getLast? = some a) :
    l.foldl advanced current = some a := by
  induction l using List.reverseRecOn with
  | nil => cases h
  | append_singleton l e ih =>
    rw [foldl_append, foldl_cons, foldl_nil]
    rw [filter_append] at h
    by_cases he : e ∈ absorbingStatuses
    · simp only [filter_cons, he, decide_true, if_true, filter_nil, getLast?_append,
        getLast?_singleton, some_or, Option.some.injEq] at h
      rw [advanced_absorbing he, h]
    · simp only [filter_cons, he, decide_false, filter_nil, append_nil,
        Bool.false_eq_true, if_false] at h
      have ha : a ∈ absorbingStatuses := by
        simpa using (mem_filter.1 (mem_of_getLast? h)).2
      rw [ih h, advanced, not_shouldAdvance_of_absorbing ha he]
      rfl

theorem mem_statusOrder_of_getLast?_eq_none (hr : ∀ e ∈ l, isRecognizedEventType e = true)
    (h : (l.filter (· ∈ absorbingStatuses)).getLast? = none) : ∀ e ∈ l, e ∈ statusOrder := by
  intro e he
  refine mem_statusOrder_of_recognized (hr e he) fun habs => ?_
  have hmem : e ∈ l.filter (· ∈ absorbingStatuses) := mem_filter.2 ⟨he, by simpa using habs⟩
  rw [getLast?_eq_none_iff.1 h] at hmem
  cases hmem

/-- Receipts in order take a request to the furthest of them. -/
theorem foldl_advanced_furthest (current : Option Status) (hl : ∀ e ∈ l, e ∈ statusOrder) :
    (l.foldl advanced current = current ∨ ∃ e ∈ l, l.foldl advanced current = some e) ∧
      finalRank current ≤ finalRank (l.foldl advanced current) ∧
      ∀ e ∈ l, finalRank (some e) ≤ finalRank (l.foldl advanced current) := by
  induction l generalizing current with
  | nil => exact ⟨.inl rfl, Nat.le_refl _, nofun⟩
  | cons e l ih =>
    obtain ⟨hmem, hle, hall⟩ := ih (advanced current e) fun e' he' => hl e' (.tail _ he')
    have hiff : shouldAdvance current e = true ↔ finalRank current < finalRank (some e) :=
      shouldAdvance_iff (hl e (.head _))
    rw [foldl_cons]
    -- a receipt leaves the later of the two positions
    by_cases hadv : shouldAdvance current e = true
    · have heq : advanced current e = some e := if_pos hadv
      rw [heq] at hmem hle hall ⊢
      refine ⟨.inr ?_, Nat.le_trans (Nat.le_of_lt (hiff.1 hadv)) hle, forall_mem_cons.2 ⟨hle, hall⟩⟩
      rcases hmem with hmem | ⟨e', he', hmem⟩
      · exact ⟨e, .head _, hmem⟩
      · exact ⟨e', .tail _ he', hmem⟩
    · have heq : advanced current e = current := if_neg hadv
      rw [heq] at hmem hle hall ⊢
      refine ⟨hmem.imp_right fun ⟨e', he', h⟩ => ⟨e', .tail _ he', h⟩, hle,
        forall_mem_cons.2 ⟨Nat.le_trans (Nat.le_of_not_lt fun h => hadv (hiff.2 h)) hle, hall⟩⟩

/-- Where recognised receipts lead. -/
theorem leads_foldl_advanced (current : Option Status)
    (hr : ∀ e ∈ l, isRecognizedEventType e = true) :
    Leads current l (l.foldl advanced current) := by
  unfold Leads
  split
  · next h => exact foldl_advanced_of_getLast? h
  · next h => exact foldl_advanced_furthest current (mem_statusOrder_of_getLast?_eq_none hr h)

/-- Sequences of the same receipts, absorbing ones in the same order, agree. -/
theorem foldl_advanced_perm (current : Option Status) {l1 l2 : List Status} (hp : l1.Perm l2)
    (hr : ∀ e ∈ l1, isRecognizedEventType e = true)
    (ha : l1.filter (· ∈ absorbingStatuses) = l2.filter (· ∈ absorbingStatuses)) :
    l1.foldl advanced current = l2.foldl advanced current := by
  cases hl : (l1.filter (· ∈ absorbingStatuses)).getLast? with
  | some a =>
    rw [foldl_advanced_of_getLast? hl, foldl_advanced_of_getLast? (ha ▸ hl)]
  | none =>
    -- without absorbing receipts the updates commute
    have hn := mem_statusOrder_of_getLast?_eq_none hr hl
    exact hp.foldl_eq' (fun e he e' he' c => advanced_comm c (hn e he) (hn e' he')) current

/-! ## The status of a request -/

/-- The `final_status` of the request under a key, if there is one. -/
def TenantDb.finalStatus? (db : TenantDb) (k : Time × Uuid) : Option (Option Status) :=
  (db.commsRequest.find? k).map (·.finalStatus)

/-- The key of the request that a receipt was matched with. -/
abbrev Match.key (m : Match) : Time × Uuid := (m.commsRequestCreatedAt, m.commsRequestId)

section
variable {db : TenantDb} {now : Time} {m : Match} {receipt : Receipt}
  {ciphertext : Option Bytes}

/-- `find_match` reads the status of the request it returns. -/
theorem finalStatus?_of_findMatch {providerRef : String} (h : findMatch db providerRef = some m) :
    db.finalStatus? m.key = some m.currentFinalStatus := by
  obtain ⟨-, -, -, r, hr, -, rfl⟩ := findMatch_some h
  show (db.commsRequest.find? r.key).map _ = _
  rw [Table.find?_of_mem hr]
  rfl

/-- The requests after a promotion. -/
theorem promoteMatch_commsRequest : (promoteMatch db now m receipt ciphertext).commsRequest =
    if shouldAdvance m.currentFinalStatus receipt.eventType then
      (db.setFinalStatus m.commsRequestCreatedAt m.commsRequestId receipt.eventType
        now).commsRequest
    else db.commsRequest := by
  have hsupp : ∀ (db' : TenantDb) reason,
      (db'.suppress m.destinationHmac reason now).commsRequest = db'.commsRequest := fun _ _ => rfl
  unfold promoteMatch insertCommsEvent
  split <;> split <;> simp only [hsupp, TenantDb.setFinalStatus, insertEvent_commsRequest]

/-- A promotion that advances its request sets the status. -/
theorem finalStatus?_promoteMatch (k : Time × Uuid) :
    (promoteMatch db now m receipt ciphertext).finalStatus? k =
      (db.finalStatus? k).map fun current =>
        if k = m.key ∧ shouldAdvance m.currentFinalStatus receipt.eventType then
          some receipt.eventType
        else current := by
  rw [TenantDb.finalStatus?, promoteMatch_commsRequest, TenantDb.finalStatus?, Option.map_map]
  split
  · next ha =>
    rw [TenantDb.setFinalStatus, Table.find?_update, Option.map_map]
    cases hf : db.commsRequest.find? k with
    | none => rfl
    | some r =>
      obtain ⟨-, rfl⟩ := Table.find?_some hf
      simp only [map_some, Function.comp, ha, and_true, CommsRequest.key, Match.key,
        Prod.mk.injEq, Bool.and_eq_true, decide_eq_true_eq]
      split <;> rfl
  · next ha =>
    cases db.commsRequest.find? k with
    | none => rfl
    | some r => simp [ha]

end

/-! ## One receipt after the other -/

namespace Receipts

/-- A receipt with the time and the ciphertext it is promoted with. -/
structure Processed where
  receipt : Recognized
  now : Time
  ciphertext : Option Bytes
deriving DecidableEq

/-- A receipt of the request `m`, processed by itself: `find_match` reads the status that is then
committed (`finalStatus?_of_findMatch`). -/
def process (m : Match) (db : TenantDb) (x : Processed) : TenantDb :=
  promoteMatch db x.now { m with currentFinalStatus := (db.finalStatus? m.key).join }
    x.receipt.toReceipt x.ciphertext

/-- A sequence of receipts of the request `m`. -/
def processAll (m : Match) (db : TenantDb) (l : List Processed) : TenantDb :=
  l.foldl (process m) db

theorem finalStatus?_process (m : Match) (db : TenantDb) (x : Processed) :
    (process m db x).finalStatus? m.key =
      (db.finalStatus? m.key).map (advanced · x.receipt.status) := by
  rw [process, finalStatus?_promoteMatch]
  cases db.finalStatus? m.key with
  | none => rfl
  | some current => simp [Match.key, advanced, Recognized.toReceipt]

/-- The status after a sequence is the fold of `advanced`. -/
theorem finalStatus?_processAll (m : Match) (db : TenantDb) (l : List Processed) :
    (processAll m db l).finalStatus? m.key =
      (db.finalStatus? m.key).map ((l.map (·.receipt.status)).foldl advanced) := by
  induction l generalizing db with
  | nil => simp [processAll]
  | cons x l ih =>
    rw [processAll, foldl_cons]
    refine (ih (process m db x)).trans ?_
    rw [finalStatus?_process, Option.map_map]
    rfl

/-- Receipts of a request processed one at a time may come in any order in which the absorbing ones
stay in theirs: the request has the same `final_status` after them, and that is the one they lead
to. -/
theorem processAll_perm (m : Match) (db : TenantDb) {l1 l2 : List Processed} (hp : l1.Perm l2)
    (ha : (l1.map (·.receipt.status)).filter (· ∈ absorbingStatuses) =
      (l2.map (·.receipt.status)).filter (· ∈ absorbingStatuses)) :
    (processAll m db l1).finalStatus? m.key = (processAll m db l2).finalStatus? m.key ∧
      ∀ current, db.finalStatus? m.key = some current →
        ∃ reached, (processAll m db l1).finalStatus? m.key = some reached ∧
          Leads current (l1.map (·.receipt.status)) reached := by
  have hr : ∀ e ∈ l1.map (·.receipt.status), isRecognizedEventType e = true := by
    intro e he
    obtain ⟨x, -, rfl⟩ := List.mem_map.1 he
    exact x.receipt.recognized
  rw [finalStatus?_processAll, finalStatus?_processAll]
  refine ⟨?_, fun current hc => ?_⟩
  · congr 1
    funext current
    exact foldl_advanced_perm current (hp.map _) hr ha
  · rw [hc]
    exact ⟨_, rfl, leads_foldl_advanced current hr⟩

/-! ### A request and its receipts, for runs on fixed inputs -/

/-- A request that was sent. -/
def sampleRequest : CommsRequest :=
  ⟨⟨100⟩, ⟨1⟩, 0, ⟨2⟩, "sms", .transactional, none, [7], [], some [], ⟨3⟩, none, none, some .sent,
    some 1⟩

/-- Its event carries the provider's reference. -/
def sampleLedger : TenantDb :=
  { TenantDb.empty with
    commsRequest := ⟨[sampleRequest], by decide⟩
    commsEvent := ⟨[⟨⟨1⟩, ⟨2⟩, 1, .sent, "ref", none, none⟩], by decide⟩ }

/-- What `find_match` answers for that reference. -/
def sampleMatch : Match := ⟨⟨1⟩, 0, ⟨2⟩, some .sent, [7]⟩

/-- A receipt for that reference. -/
def PendingReceipt.sample (id : Nat) (status : Status) (occurredAt : Time) : PendingReceipt :=
  ⟨⟨BitVec.ofNat 128 id⟩, "provider", "ref", occurredAt, status.text, none⟩

/-- A row of `webhook_receipt_staging` for the request of `sampleLedger`. -/
def StagingRow.sample (id : Nat) (status : Status) (occurredAt : Time) : StagingRow :=
  ⟨.sample id status occurredAt, []⟩

/-- A tenant with that request and a partition for the times up to 100. -/
def sampleWorld : World := ⟨.start sampleLedger [(0, 100)], []⟩

/-- That receipt, ready to be promoted. -/
def Processed.sample (status : Status) (h : isRecognizedEventType status = true) : Processed :=
  ⟨⟨.sample 10 status 5, status, rfl, h⟩, 6, none⟩

/-- Receipts out of order, around one that is absorbing. -/
theorem processAll_perm_bounced :
    (processAll sampleMatch sampleLedger
        [.sample .delivered rfl, .sample .bounced rfl, .sample .read rfl]).finalStatus? (0, ⟨1⟩) =
      (processAll sampleMatch sampleLedger
        [.sample .read rfl, .sample .delivered rfl, .sample .bounced rfl]).finalStatus? (0, ⟨1⟩) ∧
    (processAll sampleMatch sampleLedger
        [.sample .delivered rfl, .sample .bounced rfl, .sample .read rfl]).finalStatus? (0, ⟨1⟩) =
      some (some .bounced) := by
  obtain ⟨heq, hleads⟩ := @processAll_perm sampleMatch sampleLedger
    [.sample .delivered rfl, .sample .bounced rfl, .sample .read rfl]
    [.sample .read rfl, .sample .delivered rfl, .sample .bounced rfl] (by decide) (by decide)
  obtain ⟨reached, hreached, rfl⟩ := hleads _ rfl
  exact ⟨heq, hreached⟩

/-- A bounce and a complaint: the one that is processed last stays. -/
theorem processAll_bounced_complaint :
    ∃ l1 l2 : List Processed, l1.Perm l2 ∧
      (processAll sampleMatch sampleLedger l1).finalStatus? (0, ⟨1⟩) = some (some .complaint) ∧
      (processAll sampleMatch sampleLedger l2).finalStatus? (0, ⟨1⟩) = some (some .bounced) :=
  ⟨[.sample .bounced rfl, .sample .complaint rfl], [.sample .complaint rfl, .sample .bounced rfl],
    by decide, by decide +kernel, by decide +kernel⟩

end Receipts

end Messgr
