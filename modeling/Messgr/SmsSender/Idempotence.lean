import Messgr.SmsSender.Conservation
import Messgr.SmsSender.Versions

/-!
# A record is written once

Whichever of the three paths writes a record, in whichever order and however often: the rows of all
its executions have the same keys, so once one of them was committed there is one request and one
event of it (`auditRecord_written_once`). The record of a request that was refused has no ciphertext
to decrypt (`discarded_not_decrypted`).
-/

namespace Messgr.SmsSender.Trail

open TxProgram (transactional)

/-- A program returns, and the versions stay. -/
abbrev Retains {β : Type} (s : Trail) : Except SmsSenderError β → Trail → Prop :=
  Returns fun _ s' => ∀ e ∈ s.versions, e ∈ s'.versions

section
variable {α : Type} [RecordLines α] [HmacSha256] [Aes256Gcm]
variable {keys : TenantKeys} {t : Nat} {call : Call} {s : Trail}

/-! ## Programs -/

/-- A version that may be made may be appended. -/
theorem append_spec {e : Entry} (hmay : May keys t s e) :
    Wp α keys t call (Retains s) (transactional (Program.append e)) s := by
  refine wp_quiet (c := .openAppend e) rfl fun b s1 h1 _ => ?_
  cases b with
  | false => exact .ret fun s' hs => (h1.trans hs).versions
  | true =>
    refine wp_writeLine (hmay.later h1) fun b s2 hv => ?_
    have hv : ∀ e ∈ s.versions, e ∈ s2.versions := fun e he => hv e (h1.versions e he)
    cases b with
    | false => exact .ret fun s' hs e he => hs.versions e (hv e he)
    | true =>
      refine wp_quiet (c := .writeEnd e) rfl fun b s3 h3 _ => ?_
      cases b with
      | false => exact .ret fun s' hs e he => (h3.trans hs).versions e (hv e he)
      | true =>
        refine wp_quiet (c := .syncAll e) (f := pure) rfl fun b s4 h4 _ => ?_
        exact .ret fun s' hs e he => (h3.trans (h4.trans hs)).versions e (hv e he)

theorem persistOrBuffer_spec {r : AuditRecord} (hmay : May keys t s (.audit r)) :
    Wp α keys t call (Retains s) (transactional (Program.persistOrBuffer r)) s := by
  refine (writeAuditRecord_spec hmay).seq (fun b s1 h1 => ?_) fun _ _ h => h.elim
  cases b with
  | true => exact .ret fun s' hs e he => hs.versions e (h1.2 e he)
  | false =>
    show Wp α keys t call _ (transactional (.append (.audit r) >>= fun _ => pure ())) s1
    refine wp_seq (append_spec h1.1) fun b s2 h2 => ?_
    exact .ret fun s' hs e he => hs.versions e (h2 e (h1.2 e he))

/-! ### The handler -/

/-- What is encrypted decrypts under the customer's key. -/
theorem computeDestinationCrypto_spec (tenant : TenantContext) (id customerId : Uuid)
    (destination : String) :
    Wp α keys t call
      (Returns fun crypto s' => Others keys t s s' ∧ ∀ hmac ciphertext,
        crypto = some (hmac, ciphertext) →
        decrypt (keys.dek tenant.tenantId customerId) id.asBytes ciphertext =
          .ok (asBytes destination))
      (transactional (Program.computeDestinationCrypto tenant id customerId destination)) s := by
  refine wp_quiet (c := .getOrCreateDek _ _) rfl fun dek s1 h1 hdek => ?_
  cases dek with
  | none => exact .ret fun s' hs => ⟨h1.trans hs, nofun⟩
  | some dek =>
    obtain rfl := hdek dek rfl
    refine wp_quiet (c := .nonce) rfl fun n s2 h2 _ => ?_
    split
    · next ciphertext henc =>
      refine .ret fun s' hs => ⟨h1.trans (h2.trans hs), fun hmac c hc => ?_⟩
      cases hc
      exact decrypt_encrypt henc
    · exact .ret fun s' hs => ⟨h1.trans (h2.trans hs), nofun⟩

/-- The record of a request that was sent, wherever it lands, is one of the request. -/
theorem persistSendOutcome_spec {i : Issue} (hdrawn : Drawn t s i)
    (hpepper : i.producer.tenant.pepper = keys.pepper i.producer.tenant.tenantId)
    (createdAt : Time) (customerId producerId : Uuid) {finalStatus : Status}
    (hstatus : finalStatus ≠ .discarded) (providerRef : String) (providerStatus : Option String) :
    Wp α keys t call (Returns fun _ _ => True)
      (transactional (Program.persistSendOutcome i.producer.tenant i.id createdAt customerId
        producerId i.body.destination finalStatus providerRef providerStatus)) s := by
  refine wp_seq (computeDestinationCrypto_spec i.producer.tenant i.id customerId
    i.body.destination) fun crypto s1 h1 => ?_
  obtain ⟨h1, hcrypto⟩ := h1
  cases crypto with
  | some crypto =>
    have hdec := hcrypto crypto.1 crypto.2 rfl
    refine (persistOrBuffer_spec ((hdrawn.later h1).may ?_ ?_)).mono fun a s h => ?_
    · rfl
    · exact ⟨rfl, fun h => absurd h hstatus, fun _ => opened_of_decrypt hdec⟩
    · cases a with
      | ok _ => trivial
      | error _ => exact h
  | none =>
    refine wp_quiet (c := .nonce) rfl fun n s2 h2 _ => ?_
    split
    · next ciphertext henc =>
      refine wp_seq (append_spec ((hdrawn.later (h1.trans h2)).may ?_ ?_)) fun b s3 _ =>
        Rules.Wp.ret fun _ _ => trivial
      · rfl
      · refine ⟨rfl, fun h => absurd h hstatus, fun _ => opened_of_decrypt ?_⟩
        rw [← hpepper]
        exact decrypt_encrypt henc
    · exact .ret fun _ _ => trivial

/-- A request keeps the rules. -/
theorem sendOtp_spec (producer : ProducerContext) (body : SendOtpRequest)
    (hpepper : producer.tenant.pepper = keys.pepper producer.tenant.tenantId) :
    Wp α keys t (.sendOtp producer body) (fun _ _ => True)
      (transactional (Program.sendOtp producer body)) s := by
  refine wp_newUuid fun id s1 hdrawn => ?_
  refine wp_quiet (c := .now) rfl fun createdAt s2 h2 _ => ?_
  refine wp_quiet (c := .isEnabled _) rfl fun enabled s3 h3 _ => ?_
  have hdrawn := hdrawn.later (h2.trans h3)
  cases enabled with
  | true =>
    refine wp_quiet (c := .send _ _ _) rfl fun sent s4 h4 _ => ?_
    have hdrawn := hdrawn.later h4
    cases sent with
    | ok outcome =>
      exact wp_seq (persistSendOutcome_spec hdrawn hpepper createdAt body.customerId
        producer.producerId (show Status.sent ≠ .discarded from nofun) _ _) fun _ _ _ =>
          Rules.Wp.ret fun _ _ => trivial
    | error err =>
      exact wp_seq (persistSendOutcome_spec hdrawn hpepper createdAt body.customerId
        producer.producerId (show Status.failed ≠ .discarded from nofun) _ _) fun _ _ _ =>
          Rules.Wp.fail fun _ _ => trivial
  | false =>
    refine wp_seq (persistOrBuffer_spec (hdrawn.may ?_ ?_)) fun _ _ _ =>
      Rules.Wp.fail fun _ _ => trivial
    · rfl
    · exact ⟨rfl, fun _ => rfl, fun h => absurd rfl h⟩

/-! ### The drains -/

/-- The loop over lines whose records were seen. -/
theorem drainLines_spec {ρ : Type} {ofLine : List α → Option ρ} {keep : ρ → Program α Bool}
    (entry : ρ → Entry) (hkeep : ∀ r s, s.Seen keys (entry r) → Wp α keys t call (Retains s)
      (transactional (keep r)) s) (lines : List (List α)) (remaining : List ρ)
    (hlines : ∀ line ∈ lines, ∀ r, ofLine line = some r → s.Seen keys (entry r)) :
    Wp α keys t call (Returns fun _ _ => True)
      (transactional (Program.drainLines ofLine keep lines remaining)) s := by
  induction lines generalizing remaining s with
  | nil => exact .ret fun _ _ => trivial
  | cons line lines ih =>
    have htail : ∀ line ∈ lines, ∀ r, ofLine line = some r → s.Seen keys (entry r) :=
      fun line hl => hlines line (.tail _ hl)
    rw [Program.drainLines]
    cases hl : ofLine line with
    | none => exact ih remaining htail
    | some record =>
      refine wp_seq (hkeep record s (hlines line (.head _) record hl)) fun b s1 h1 => ?_
      have hseen : ∀ line ∈ lines, ∀ r, ofLine line = some r → s1.Seen keys (entry r) :=
        fun line hl r hr => (htail line hl r hr).mono h1
      cases b with
      | true => exact ih (remaining ++ [record]) hseen
      | false => exact ih remaining hseen

/-- A drain keeps the rules if its loop body does. -/
theorem drain_spec {ρ : Type} {f : File} {ofLine : List α → Option ρ} {toLine : ρ → List α}
    {keep : ρ → Program α Bool} (entry : ρ → Entry)
    (hof : ∀ line, entryOf f line = (ofLine line).map entry)
    (hkeep : ∀ r s, s.Seen keys (entry r) → Wp α keys t call (Retains s)
      (transactional (keep r)) s) :
    Wp α keys t call (Returns fun _ _ => True)
      (transactional (Program.drain f ofLine toLine keep)) s := by
  refine wp_quiet (c := .read f) rfl fun contents s1 _ htold => ?_
  cases contents with
  | none => exact .ret fun _ _ => trivial
  | some contents =>
    have hholds := htold contents rfl
    refine wp_seq (drainLines_spec entry hkeep _ [] fun line hl r hr => ?_) fun rest s2 _ => ?_
    · refine seen_of_mem (mem_versions_of_written (hholds line hl _ ?_))
      rw [hof, hr]
      rfl
    · refine wp_quiet (c := .rewrite f _) (f := pure) rfl fun _ s3 _ _ => ?_
      exact .ret fun _ _ => trivial

theorem retryWrite_spec {r : AuditRecord} (hseen : s.Seen keys (.audit r)) :
    Wp α keys t call (Retains s) (transactional (Program.retryWrite r)) s := by
  refine wp_quiet (c := .getOrOpen _) rfl fun pepper s1 h1 _ => ?_
  cases pepper with
  | none => exact .ret fun s' hs => (h1.trans hs).versions
  | some pepper =>
    refine (writeAuditRecord_spec (.inl (hseen.mono h1.versions))).seq (fun b s2 h2 => ?_)
      fun _ _ h => h.elim
    exact .ret fun s' hs e he => hs.versions e (h2.2 e (h1.versions e he))

/-- The record that is encrypted again is another version of the pending one. -/
theorem retryCrypto_spec {r : PendingAuditRecord} (hseen : s.Seen keys (.pending r)) :
    Wp α keys t call (Retains s) (transactional (Program.retryCrypto r)) s := by
  refine wp_quiet (c := .getOrOpen _) rfl fun pepper s1 h1 hpepper => ?_
  cases pepper with
  | none => exact .ret fun s' hs => (h1.trans hs).versions
  | some pepper =>
  obtain rfl := hpepper pepper rfl
  refine wp_quiet (c := .getOrCreateDek _ _) rfl fun dek s2 h2 hdek => ?_
  have h2 := h1.trans h2
  cases dek with
  | none => exact .ret fun s' hs => (h2.trans hs).versions
  | some dek =>
  obtain rfl := hdek dek rfl
  dsimp only
  split
  · exact .ret fun s' hs => (h2.trans hs).versions
  next bytes hdec =>
  split
  · exact .ret fun s' hs => (h2.trans hs).versions
  next destination hutf =>
  refine wp_quiet (c := .nonce) rfl fun n s3 h3 _ => ?_
  have h3 := h2.trans h3
  split
  · exact .ret fun s' hs => (h3.trans hs).versions
  next ciphertext henc =>
  refine wp_seq (persistOrBuffer_spec (.inl ((hseen.mono h3.versions).same ?_))) fun _ s4 h4 => ?_
  · refine ⟨rfl, ?_⟩
    have hplain := opened_of_decrypt (decrypt_encrypt henc)
    rw [asBytes_of_fromUtf8 hutf] at hplain
    simp only [Entry.facts, opened_of_decrypt hdec, hplain]
  · exact .ret fun s' hs e he => hs.versions e (h4 e (h3.versions e he))

/-- Every call keeps the rules. -/
theorem body_spec (hopened : call.Opened keys) :
    Wp α keys t call (fun _ _ => True) ((txSystem α keys).body call) s := by
  cases call with
  | sendOtp producer body =>
    show Wp α keys t _ _ (transactional (.sendOtp producer body >>= fun id =>
      pure (some id))) s
    rw [transactional_bind]
    exact (sendOtp_spec producer body hopened).seq (fun _ _ _ => .ret fun _ _ => trivial)
      fun _ _ _ => trivial
  | drainBuffer =>
    exact wp_seq (drain_spec .audit (fun _ => rfl) fun _ _ => retryWrite_spec) fun _ _ _ =>
      Rules.Wp.ret fun _ _ => trivial
  | drainPending =>
    exact wp_seq (drain_spec .pending (fun _ => rfl) fun _ _ => retryCrypto_spec) fun _ _ _ =>
      Rules.Wp.ret fun _ _ => trivial

end

/-! ## Runs -/

section
variable [HmacSha256] [Aes256Gcm] {keys : TenantKeys} {s : Trail} {r : AuditRecord}

variable (keys) in
/-- The tenant's database has one request and one event of the record, with its status, and a
ciphertext of the destination, or none if the request was refused. -/
def WrittenOnce (s : Trail) (r : AuditRecord) (destination : String) : Prop :=
  ∃ q e,
    (∀ q', (s.stores r.tenantId).Committed (.request q') ∧ q'.id = r.commsRequestId ↔ q' = q) ∧
    (∀ e', (s.stores r.tenantId).Committed (.event e') ∧ e'.commsRequestId = r.commsRequestId ↔
      e' = e) ∧
    q.finalStatus = some r.finalStatus ∧ e.eventType = r.finalStatus ∧
    if r.finalStatus = .discarded then q.destinationCiphertext = []
    else decrypt (keys.dek r.tenantId r.customerId) r.commsRequestId.asBytes
      q.destinationCiphertext = .ok (asBytes destination)

/-- A row with the id of a record was inserted for a version of it. -/
theorem Inv.row_of_id (hinv : Inv keys s) (hr : r ∈ s.begun) {x : Tx.Entry Row}
    (hx : x ∈ (s.stores r.tenantId).entries) (hid : x.row.commsRequestId = r.commsRequestId) :
    ∃ r0, x.row.IsOf r0 ∧ Entry.Same keys (.audit r0) (.audit r) := by
  obtain ⟨i, hi, hie, hfits⟩ := hinv.origin _ (audit_mem_versions hr)
  rcases hinv.rows _ x hx with hnone | ⟨r0, hr0, -, hof⟩
  · exact absurd (hie.trans hid.symm) (hnone i hi hfits.tenantId.symm)
  · have hid0 : r0.commsRequestId = r.commsRequestId := hof.commsRequestId.symm.trans hid
    exact ⟨r0, hof, hid0, hinv.agree _ (audit_mem_versions hr0) _ (audit_mem_versions hr) hid0⟩

/-- So it has the key of the record's own row. -/
theorem Inv.request_of_id (hinv : Inv keys s) (hr : r ∈ s.begun) {q : CommsRequest}
    (hq : (s.stores r.tenantId).Committed (.request q)) (hid : q.id = r.commsRequestId) :
    q.key = (r.createdAt, r.commsRequestId) ∧ q.finalStatus = some r.finalStatus ∧
      opened (keys.dek r.tenantId r.customerId) r.commsRequestId.asBytes q.destinationCiphertext =
        opened (keys.dek r.tenantId r.customerId) r.commsRequestId.asBytes
          r.destinationCiphertext := by
  obtain ⟨r0, ⟨at0, hrow⟩ | hrow, hid0, hfacts⟩ := hinv.row_of_id hr hq hid
  · cases hrow
    have hid0 : r0.commsRequestId = r.commsRequestId := hid0
    simp only [Entry.facts, Facts.mk.injEq] at hfacts
    obtain ⟨htenant, hcreated, hcustomer, -, hstatus, -, -, hplain⟩ := hfacts
    rw [htenant, hcustomer, hid0] at hplain
    exact ⟨Prod.ext hcreated hid0, congrArg some hstatus, hplain⟩
  · cases hrow

theorem Inv.event_of_id (hinv : Inv keys s) (hr : r ∈ s.begun) {e : CommsEvent}
    (he : (s.stores r.tenantId).Committed (.event e)) (hid : e.commsRequestId = r.commsRequestId) :
    e.key = r.event.key ∧ e.eventType = r.finalStatus := by
  obtain ⟨r0, ⟨at0, hrow⟩ | hrow, hid0, hfacts⟩ := hinv.row_of_id hr he hid
  · cases hrow
  · cases hrow
    have hid0 : r0.commsRequestId = r.commsRequestId := hid0
    simp only [Entry.facts, Facts.mk.injEq] at hfacts
    obtain ⟨-, hcreated, -, -, hstatus, href, -, -⟩ := hfacts
    refine ⟨?_, hstatus⟩
    simp only [CommsEvent.key, AuditRecord.event, hcreated, hid0, hstatus, href]

variable {α : Type} [RecordLines α]

theorem allows (w : TxState α) (a : TxMove α) :
    (rules α keys).Allows (fun _ _ _ _ => True) w a where
  start i s' _ hx hinv := by
    simp only [txSystem] at hx
    split at hx
    · next hopened =>
      cases hx
      exact ⟨hinv, fun u => .refl u _, body_spec hopened⟩
    · cases hx
  env x := nomatch x
  step _ _ _ _ _ _ _ := trivial

theorem inv_of_run {stores : Uuid → Tx.Store Row} {as : List (TxMove α)} {w : TxState α}
    (h : Run.Steps (txSystem α keys).step Run.Any ⟨.start stores, []⟩ as w) :
    Inv keys w.shared := by
  have hstart : (rules α keys).Holds (fun _ _ _ _ => True) (⟨.start stores, []⟩ : TxState α) :=
    ⟨⟨nofun, nofun, nofun, fun _ _ _ => .inl nofun, nofun⟩, fun t th hth => by cases hth⟩
  exact (Rules.Holds.run (fun w a _ => allows w a) h hstart).inv

/-- In every run, whichever threads write a record and however often: once a write of it was
committed, reported or not, its tenant's database has one request and one event of it. -/
theorem auditRecord_written_once {stores : Uuid → Tx.Store Row} {as : List (TxMove α)}
    {w : TxState α} (h : Run.Steps (txSystem α keys).step Run.Any ⟨.start stores, []⟩ as w)
    {r r' : AuditRecord} (hr : r ∈ w.shared.begun) (hr' : r' ∈ w.shared.committed)
    (hid : r'.commsRequestId = r.commsRequestId) :
    ∃ i ∈ w.shared.issued, i.id = r.commsRequestId ∧
      w.shared.WrittenOnce keys r i.body.destination := by
  have hinv := inv_of_run h
  obtain ⟨i, hi, hie, hfits⟩ := hinv.origin _ (audit_mem_versions hr)
  obtain ⟨hbegun, ⟨rowq, hcq, hkq⟩, rowe, hce, hke⟩ := hinv.committed r' hr'
  have hfacts := hinv.agree _ (audit_mem_versions hbegun) _ (audit_mem_versions hr) hid
  have htenant : r'.tenantId = r.tenantId := congrArg Facts.tenantId hfacts
  rw [htenant] at hcq hce
  cases rowq with
  | event _ => cases hkq
  | request q =>
  cases rowe with
  | request _ => cases hke
  | event e =>
  have hqid : q.id = r.commsRequestId := (congrArg Prod.snd (Row.Key.request.inj hkq)).trans hid
  have heid : e.commsRequestId = r.commsRequestId :=
    (congrArg (fun k => k.2.1) (Row.Key.event.inj hke)).trans hid
  obtain ⟨hqkey, hqstatus, hqplain⟩ := hinv.request_of_id hr hcq hqid
  obtain ⟨hekey, hestatus⟩ := hinv.event_of_id hr hce heid
  refine ⟨i, hi, hie, q, e, fun q' => ⟨fun h => ?_, ?_⟩, fun e' => ⟨fun h => ?_, ?_⟩, hqstatus,
    hestatus, ?_⟩
  · have hkey := (hinv.request_of_id hr h.1 h.2).1
    have hrow := h.1.eq_of_key hcq (List.mem_singleton.2 rfl)
      (List.mem_singleton.2 (congrArg Row.Key.request (hkey.trans hqkey.symm)))
    exact Row.request.inj hrow
  · rintro rfl
    exact ⟨hcq, hqid⟩
  · have hkey := (hinv.event_of_id hr h.1 h.2).1
    have hrow := h.1.eq_of_key hce (List.mem_singleton.2 rfl)
      (List.mem_singleton.2 (congrArg Row.Key.event (hkey.trans hekey.symm)))
    exact Row.event.inj hrow
  · rintro rfl
    exact ⟨hce, heid⟩
  · split
    · next hd => exact eq_nil_of_opened (hqplain.trans (hfits.discarded hd))
    · next hd => exact decrypt_of_opened (hqplain.trans (hfits.sent hd))

end

/-! ### Runs on fixed inputs -/

def sampleKeys : TenantKeys := ⟨fun _ => [], fun _ _ => List.replicate 32 1⟩

abbrev sampleTxSystem : Sys Trail Call (TxEvent (AuditRecord ⊕ PendingAuditRecord)) Empty
    (@TxStmt.Answer (AuditRecord ⊕ PendingAuditRecord)) SmsSenderError (Option Uuid) :=
  @txSystem _ .sample sampleKeys fixedHmac .sample

abbrev SampleMove := TxMove (AuditRecord ⊕ PendingAuditRecord)

/-- Databases without rows, and no thread. -/
def sampleStart : TxState (AuditRecord ⊕ PendingAuditRecord) := ⟨.start fun _ => .empty, []⟩

/-- The first answers to a request: its id, the time, and whether codes are sent. -/
def requested (enabled : Bool) : List SampleMove :=
  [.start (.sendOtp ⟨⟨2⟩, ⟨⟨1⟩, []⟩⟩ ⟨⟨3⟩, "+41", "123456"⟩), .step 0 (.of (.uuid ⟨7⟩)),
   .step 0 (.of (.time 0)), .step 0 (.of (.flag enabled))]

/-- The answers to a transaction up to its commit. -/
def inserted (t : Nat) (now : Time) : List SampleMove :=
  [.step t (.of .done), .step t (.of (.time now)), .step t (.of .done), .step t (.of .done)]

/-- The answers to an append. -/
def appended (t : Nat) : List SampleMove := List.replicate 4 (.step t (.of .done))

/-- The ciphertext of the destination under a key. -/
def sampleCiphertext (key : Bytes) : Bytes :=
  Nonce.sample.1 ++ (key ++ Uuid.asBytes ⟨7⟩ ++ asBytes "+41")

def pendingRecord : PendingAuditRecord where
  tenantId := ⟨1⟩
  commsRequestId := ⟨7⟩
  createdAt := 0
  customerId := ⟨3⟩
  producerId := ⟨2⟩
  destinationCiphertext := sampleCiphertext (List.replicate 32 0)
  finalStatus := .sent
  providerRef := "ref"
  providerStatus := some "ok"

def auditRecord : AuditRecord where
  tenantId := ⟨1⟩
  commsRequestId := ⟨7⟩
  createdAt := 0
  customerId := ⟨3⟩
  destinationHmac := List.replicate 32 0
  destinationCiphertext := sampleCiphertext (List.replicate 32 1)
  producerId := ⟨2⟩
  finalStatus := .sent
  providerRef := "ref"
  providerStatus := some "ok"

/-- A code is sent while Vault is down. The drain of the pending file writes its record and does not
learn of it, so the drain of the buffer file writes it again. -/
def retried : List SampleMove :=
  requested true ++
    ([.step 0 (.of (.sent (.ok ⟨"ref", "ok"⟩))), .step 0 (.of .fails),
      .step 0 (.of (.nonce .sample))] : List SampleMove) ++ appended 0 ++
    ([.start .drainPending, .step 1 (.contents (some [some (.inr pendingRecord), none])),
      .step 1 (.of .done), .step 1 (.of .done), .step 1 (.of (.nonce .sample))] :
      List SampleMove) ++ inserted 1 1 ++ ([.step 1 (.of (.lost 1))] : List SampleMove) ++
    appended 1 ++ ([.step 1 (.of .done), .start .drainBuffer,
      .step 2 (.contents (some [some (.inl auditRecord), none])), .step 2 (.of .done)] :
      List SampleMove) ++ inserted 2 2 ++ ([.step 2 (.of .done), .step 2 (.of .done)] :
      List SampleMove)

/-- Two writes of the record were committed. -/
theorem auditRecord_written_once_retried :
    ∃ w, Run.Steps sampleTxSystem.step Run.Any sampleStart retried w ∧
      w.shared.committed = [auditRecord, auditRecord] ∧
      ∃ i ∈ w.shared.issued, i.id = ⟨7⟩ ∧
        @WrittenOnce .sample sampleKeys w.shared auditRecord i.body.destination := by
  obtain ⟨w, hw, hp⟩ := Run.Steps.exists_of_exec sampleTxSystem.step sampleStart retried
    (fun w => w.shared.begun = [auditRecord, auditRecord] ∧
      w.shared.committed = [auditRecord, auditRecord]) (by decide +kernel)
  obtain ⟨hbegun, hcommitted⟩ := of_decide_eq_true hp
  refine ⟨w, hw, hcommitted, @auditRecord_written_once fixedHmac .sample sampleKeys _ .sample _ _ w
    hw auditRecord auditRecord ?_ ?_ rfl⟩
  · rw [hbegun]
    exact .head _
  · rw [hcommitted]
    exact .head _

def discardedRecord : AuditRecord :=
  ⟨⟨1⟩, ⟨7⟩, 0, ⟨3⟩, [], [], ⟨2⟩, .discarded, "", none⟩

/-- A request that is refused because its tenant sends no codes. -/
def refused : List SampleMove :=
  requested false ++ inserted 0 1 ++ ([.step 0 (.of .done)] : List SampleMove)

/-- Its record is written without the destination. -/
theorem discarded_not_decrypted :
    ∃ w, Run.Steps sampleTxSystem.step Run.Any sampleStart refused w ∧
      ∃ r ∈ w.shared.committed, ∃ i ∈ w.shared.issued, i.id = r.commsRequestId ∧
        ∃ q, (w.shared.stores r.tenantId).Committed (.request q) ∧ q.id = r.commsRequestId ∧
          @decrypt .sample (sampleKeys.dek r.tenantId r.customerId) r.commsRequestId.asBytes
            q.destinationCiphertext ≠ .ok (asBytes i.body.destination) := by
  obtain ⟨w, hw, hp⟩ := Run.Steps.exists_of_exec sampleTxSystem.step sampleStart refused
    (fun w => discardedRecord ∈ w.shared.committed ∧
      (∃ i ∈ w.shared.issued, i.id = ⟨7⟩) ∧
      .request (discardedRecord.request 1) ∈ (w.shared.stores ⟨1⟩).visible none)
    (by decide +kernel)
  obtain ⟨hcommitted, ⟨i, hi, hid⟩, hrow⟩ := of_decide_eq_true hp
  refine ⟨w, hw, discardedRecord, hcommitted, i, hi, hid, discardedRecord.request 1,
    Tx.Store.mem_visible_none.1 hrow, rfl, nofun⟩

end Messgr.SmsSender.Trail
