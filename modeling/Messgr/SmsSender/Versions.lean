import Messgr.SmsSender.Transactions

/-!
# The versions of a record

A record reaches its tenant's database from the request, from the buffer file and from the pending
file, several times and with several ciphertexts. A version of it is made by the request that drew
its id, or copied from another one (`May`), so all of them agree on their facts (`Inv.agree`). The
threads are verified against each other by what they leave alone (`Others`), statement by statement
up to the transaction (`writeAuditRecord_spec`).
-/

namespace Messgr.SmsSender

open List Option

/-! ## Facts -/

/-- What the versions of a record have in common. -/
structure Facts where
  tenantId : Uuid
  createdAt : Time
  customerId : Uuid
  producerId : Uuid
  finalStatus : Status
  providerRef : String
  providerStatus : Option String
  plaintext : Option (Except EncryptionError Bytes)

def Entry.commsRequestId : Entry → Uuid
  | .audit r => r.commsRequestId
  | .pending r => r.commsRequestId

section
variable [Aes256Gcm]
variable {dek aad ciphertext : Bytes}

/-- What a ciphertext decrypts to, if there is one. -/
def opened (dek aad ciphertext : Bytes) : Option (Except EncryptionError Bytes) :=
  if ciphertext = [] then none else some (decrypt dek aad ciphertext)

theorem opened_of_decrypt {plaintext : Bytes} (h : decrypt dek aad ciphertext = .ok plaintext) :
    opened dek aad ciphertext = some (.ok plaintext) := by
  rw [opened, if_neg, h]
  rintro rfl
  unfold decrypt at h
  split at h <;> cases h

theorem decrypt_of_opened {plaintext : Bytes}
    (h : opened dek aad ciphertext = some (.ok plaintext)) :
    decrypt dek aad ciphertext = .ok plaintext := by
  unfold opened at h
  split at h
  · cases h
  · exact Option.some.inj h

theorem eq_nil_of_opened (h : opened dek aad ciphertext = none) : ciphertext = [] := by
  unfold opened at h
  split at h
  · assumption
  · cases h

end

section
variable [HmacSha256] [Aes256Gcm] (keys : TenantKeys)

def Entry.facts : Entry → Facts
  | .audit r => ⟨r.tenantId, r.createdAt, r.customerId, r.producerId, r.finalStatus, r.providerRef,
      r.providerStatus, opened (keys.dek r.tenantId r.customerId) r.commsRequestId.asBytes
        r.destinationCiphertext⟩
  | .pending r => ⟨r.tenantId, r.createdAt, r.customerId, r.producerId, r.finalStatus,
      r.providerRef, r.providerStatus, opened (deriveKey (keys.pepper r.tenantId))
        r.commsRequestId.asBytes r.destinationCiphertext⟩

/-- Two versions of one record. -/
def Entry.Same (e e' : Entry) : Prop :=
  e.commsRequestId = e'.commsRequestId ∧ e.facts keys = e'.facts keys

variable {keys} in
theorem Entry.Same.trans {e e' e'' : Entry} (h : e.Same keys e') (h' : e'.Same keys e'') :
    e.Same keys e'' :=
  ⟨h.1.trans h'.1, h.2.trans h'.2⟩

end

/-- The facts are those of a record of the request: its destination is what was asked for, unless
the request was refused. -/
structure Issue.Fits (i : Issue) (f : Facts) : Prop where
  tenantId : f.tenantId = i.producer.tenant.tenantId
  discarded : f.finalStatus = .discarded → f.plaintext = none
  sent : f.finalStatus ≠ .discarded → f.plaintext = some (.ok (asBytes i.body.destination))

/-- The row is one that an execution for the record inserts. -/
def Row.IsOf (row : Row) (r : AuditRecord) : Prop :=
  (∃ finalizedAt, row = .request (r.request finalizedAt)) ∨ row = .event r.event

theorem Row.IsOf.commsRequestId {row : Row} {r : AuditRecord} (h : row.IsOf r) :
    row.commsRequestId = r.commsRequestId := by
  rcases h with ⟨_, rfl⟩ | rfl <;> rfl

namespace Trail

/-! ## Rules -/

/-- The versions of records that there ever were. -/
def versions (s : Trail) : List Entry := s.begun.map .audit ++ s.written

theorem audit_mem_versions {s : Trail} {r : AuditRecord} (h : r ∈ s.begun) :
    .audit r ∈ s.versions :=
  mem_append_left _ (List.mem_map_of_mem h)

theorem mem_versions_of_written {s : Trail} {e : Entry} (h : e ∈ s.written) : e ∈ s.versions :=
  mem_append_right _ h

/-- The row was inserted for a record of a request, or has an id that none of the tenant's requests
drew. -/
def Accounted (s : Trail) (tenantId : Uuid) (row : Row) : Prop :=
  (∀ i ∈ s.issued, i.producer.tenant.tenantId = tenantId → i.id ≠ row.commsRequestId) ∨
    ∃ r ∈ s.begun, r.tenantId = tenantId ∧ row.IsOf r

/-- The database has a committed row with the key. -/
def Has (s : Trail) (tenantId : Uuid) (k : Row.Key) : Prop :=
  ∃ row, (s.stores tenantId).Committed row ∧ row.key = k

section
variable [HmacSha256] [Aes256Gcm] (keys : TenantKeys)

/-- There was a version of the record before. -/
def Seen (s : Trail) (e : Entry) : Prop := ∃ e0 ∈ s.versions, e0.Same keys e

/-- What threads other than `t` may do: of records whose ids `t` drew only make copies. -/
structure Others (t : Nat) (s s' : Trail) : Prop where
  stores : ∀ tenantId, Tx.Others (fun _ => True) t (s.stores tenantId) (s'.stores tenantId)
  begun : ∀ r ∈ s.begun, r ∈ s'.begun
  versions : ∀ e ∈ s.versions, e ∈ s'.versions
  issued : ∀ i ∈ s.issued, i ∈ s'.issued
  own : ∀ i ∈ s.issued, i.thread = t → ∀ e ∈ s'.versions, e.commsRequestId = i.id → s.Seen keys e

/-- The versions of a record agree, and the databases hold what they say. -/
structure Inv (s : Trail) : Prop where
  issued : ∀ i ∈ s.issued, ∀ j ∈ s.issued, i.id = j.id → i = j
  agree : ∀ e ∈ s.versions, ∀ e' ∈ s.versions, e.commsRequestId = e'.commsRequestId →
    e.facts keys = e'.facts keys
  origin : ∀ e ∈ s.versions, ∃ i ∈ s.issued, i.id = e.commsRequestId ∧ i.Fits (e.facts keys)
  rows : ∀ tenantId, ∀ e ∈ (s.stores tenantId).entries, s.Accounted tenantId e.row
  committed : ∀ r ∈ s.committed, r ∈ s.begun ∧
    s.Has r.tenantId (.request (r.createdAt, r.commsRequestId)) ∧
    s.Has r.tenantId (.event r.event.key)

/-- The thread has drawn the id, and all versions of its record have these facts. -/
structure Owns (t : Nat) (s : Trail) (i : Issue) (f : Facts) : Prop where
  issued : i ∈ s.issued
  thread : i.thread = t
  only : ∀ e ∈ s.versions, e.commsRequestId = i.id → e.facts keys = f

/-- The thread may make this version: a copy, or one for its request. -/
def May (t : Nat) (s : Trail) (e : Entry) : Prop :=
  s.Seen keys e ∨ ∃ i, Owns keys t s i (e.facts keys) ∧ i.id = e.commsRequestId ∧
    i.Fits (e.facts keys)

end

section
variable [HmacSha256] [Aes256Gcm] {keys : TenantKeys} {t : Nat} {s s' s'' : Trail} {e : Entry}

theorem Seen.same {e' : Entry} (h : s.Seen keys e) (he : e.Same keys e') : s.Seen keys e' := by
  obtain ⟨e0, h0, hs⟩ := h
  exact ⟨e0, h0, hs.trans he⟩

theorem Seen.mono (h : s.Seen keys e) (hv : ∀ e ∈ s.versions, e ∈ s'.versions) :
    s'.Seen keys e := by
  obtain ⟨e0, h0, hs⟩ := h
  exact ⟨e0, hv e0 h0, hs⟩

theorem seen_of_mem (h : e ∈ s.versions) : s.Seen keys e := ⟨e, h, rfl, rfl⟩

theorem Others.refl (t : Nat) (s : Trail) : Others keys t s s :=
  ⟨fun _ => .refl _ _ _, fun _ h => h, fun _ h => h, fun _ h => h,
    fun _ _ _ _ he _ => seen_of_mem he⟩

theorem Others.trans (h : Others keys t s s') (h' : Others keys t s' s'') :
    Others keys t s s'' where
  stores tenantId := (h.stores tenantId).trans (h'.stores tenantId)
  begun r hr := h'.begun r (h.begun r hr)
  versions e he := h'.versions e (h.versions e he)
  issued i hi := h'.issued i (h.issued i hi)
  own i hi ht e he hid := by
    obtain ⟨e1, he1, hsame⟩ := h'.own i (h.issued i hi) ht e he hid
    exact (h.own i hi ht e1 he1 (hsame.1.trans hid)).same hsame

theorem Owns.later {i : Issue} {f : Facts} (h : Owns keys t s i f) (hs : Others keys t s s') :
    Owns keys t s' i f where
  issued := hs.issued i h.issued
  thread := h.thread
  only e he hid := by
    obtain ⟨e0, he0, hsame⟩ := hs.own i h.issued h.thread e he hid
    rw [← hsame.2]
    exact h.only e0 he0 (hsame.1.trans hid)

theorem May.later (h : May keys t s e) (hs : Others keys t s s') : May keys t s' e := by
  rcases h with h | ⟨i, ho, hid, hf⟩
  · exact .inl (h.mono hs.versions)
  · exact .inr ⟨i, ho.later hs, hid, hf⟩

/-! ## Steps -/

/-- The database after an operation has its committed rows, and accounted ones. -/
theorem Inv.setStore {tenantId : Uuid} {db : Tx.Store Row} (hinv : Inv keys s)
    (hrows : ∀ e ∈ db.entries, s.Accounted tenantId e.row)
    (hcommitted : ∀ row, (s.stores tenantId).Committed row → db.Committed row) :
    Inv keys (s.setStore tenantId db) := by
  have hhas : ∀ id k, s.Has id k → (s.setStore tenantId db).Has id k := by
    rintro id k ⟨row, hr, hk⟩
    refine ⟨row, ?_, hk⟩
    simp only [Trail.setStore]
    split
    · next h => exact hcommitted row (h ▸ hr)
    · exact hr
  refine ⟨hinv.issued, hinv.agree, hinv.origin, fun id e he => ?_, fun r hr => ?_⟩
  · simp only [Trail.setStore] at he
    split at he
    · next h => exact h ▸ hrows e he
    · exact hinv.rows id e he
  · obtain ⟨hb, hq, he⟩ := hinv.committed r hr
    exact ⟨hb, hhas _ _ hq, hhas _ _ he⟩

theorem Others.setStore {tenantId : Uuid} {db : Tx.Store Row}
    (h : Tx.Others (fun _ => True) t (s.stores tenantId) db) :
    Others keys t s (s.setStore tenantId db) := by
  refine ⟨fun id => ?_, fun _ h => h, fun _ h => h, fun _ h => h,
    fun _ _ _ _ he _ => seen_of_mem he⟩
  simp only [Trail.setStore]
  split
  · next hid => exact hid ▸ h
  · exact .refl _ _ _

/-- One more version of a record. -/
theorem Inv.version (hinv : Inv keys s) (hmay : May keys t s e)
    (hv : ∀ e', e' ∈ s'.versions ↔ e' = e ∨ e' ∈ s.versions) (hi : s'.issued = s.issued)
    (hb : ∀ r ∈ s.begun, r ∈ s'.begun) (hs : s'.stores = s.stores)
    (hc : s'.committed = s.committed) : Inv keys s' := by
  -- the facts of the new version are those of the others
  have hfacts : ∀ e' ∈ s.versions, e'.commsRequestId = e.commsRequestId →
      e'.facts keys = e.facts keys := by
    intro e' he' hid
    rcases hmay with ⟨e0, he0, hsame⟩ | ⟨i, ho, hid', -⟩
    · exact (hinv.agree e' he' e0 he0 (hid.trans hsame.1.symm)).trans hsame.2
    · exact ho.only e' he' (hid.trans hid'.symm)
  refine ⟨by rw [hi]; exact hinv.issued, fun e1 h1 e2 h2 hid => ?_, fun e' he' => ?_,
    fun id x hx => ?_, fun r hr => ?_⟩
  · rcases (hv e1).1 h1 with rfl | h1 <;> rcases (hv e2).1 h2 with rfl | h2
    · rfl
    · exact (hfacts e2 h2 hid.symm).symm
    · exact hfacts e1 h1 hid
    · exact hinv.agree e1 h1 e2 h2 hid
  · rw [hi]
    rcases (hv e').1 he' with rfl | he'
    · rcases hmay with ⟨e0, he0, hsame⟩ | ⟨i, ho, hid, hf⟩
      · obtain ⟨i, him, hid, hf⟩ := hinv.origin e0 he0
        exact ⟨i, him, hid.trans hsame.1, hsame.2 ▸ hf⟩
      · exact ⟨i, ho.issued, hid, hf⟩
    · exact hinv.origin e' he'
  · rw [hs] at hx
    refine (hinv.rows id x hx).imp (fun h => by rwa [hi]) ?_
    rintro ⟨r, hr, h⟩
    exact ⟨r, hb r hr, h⟩
  · rw [hc] at hr
    obtain ⟨hr, hq, he⟩ := hinv.committed r hr
    simp only [Has, hs]
    exact ⟨hb r hr, hq, he⟩

/-- A version that another thread may make. -/
theorem Others.version {u : Nat} (hinv : Inv keys s) (hmay : May keys t s e) (hu : u ≠ t)
    (hv : ∀ e', e' ∈ s'.versions ↔ e' = e ∨ e' ∈ s.versions) (hi : s'.issued = s.issued)
    (hb : ∀ r ∈ s.begun, r ∈ s'.begun) (hs : s'.stores = s.stores) : Others keys u s s' where
  stores id := by rw [hs]; exact .refl _ _ _
  begun := hb
  versions e' he' := (hv e').2 (.inr he')
  issued i h := by rwa [hi]
  own j hj hju e' he' hid := by
    rcases (hv e').1 he' with rfl | he'
    · -- the id is not `u`'s: a version that is no copy is made by the thread that drew its id
      rcases hmay with h | ⟨i, ho, hid', -⟩
      · exact h
      · cases hinv.issued i ho.issued j hj (hid'.trans hid)
        exact absurd (hju.symm.trans ho.thread) hu
    · exact seen_of_mem he'

end

/-! ## Statements -/

section
variable {α : Type} [RecordLines α] [HmacSha256] [Aes256Gcm]
variable {r : AuditRecord} {tenantId : Uuid} {s' s0 : Trail}

variable (α) in
def rules (keys : TenantKeys) : Rules (txSystem α keys) where
  inv := Inv keys
  others := Others keys
  refl := Others.refl
  trans _ _ _ _ := Others.trans
  considered _ _ _ _ _ := True

variable (α) in
/-- `Rules.Wp` under these rules. -/
abbrev Wp (keys : TenantKeys) {β : Type} := (rules α keys).Wp (β := β)

variable {keys : TenantKeys} {t : Nat} {call : Call} {s : Trail} {β γ : Type}
variable {Q : Except SmsSenderError β → Trail → Prop}

open TxProgram (transactional)

omit [RecordLines α] [HmacSha256] [Aes256Gcm] in
theorem transactional_bind (p : Program α β) (f : β → Program α γ) :
    transactional (p >>= f) = transactional p >>= fun b => transactional (f b) := by
  induction p with
  | ret b => rfl
  | fail e => rfl
  | call c k ih =>
    cases c with
    | writeAuditRecord r =>
      refine Eq.trans ?_ (Prog.bind_assoc (TxProgram.writeAuditRecord r) _ _).symm
      exact congrArg _ (funext ih)
    | _ => exact congrArg (Prog.call _) (funext ih)

/-- One program after another that returns. -/
theorem wp_seq {P : γ → Trail → Prop} {p : Program α γ} {f : γ → Program α β}
    (h : Wp α keys t call (Returns P) (transactional p) s)
    (hf : ∀ b s, P b s → Wp α keys t call Q (transactional (f b)) s) :
    Wp α keys t call Q (transactional (p >>= f)) s := by
  rw [transactional_bind]
  exact h.seq hf fun _ _ h => h.elim

/-- One statement that does not end the program. -/
theorem wp_stmt {c : TxStmt α} {f : c.Answer → TxProgram α β} (P : c.Answer → Trail → Prop)
    (hc : ∀ s1 e s2 a, Others keys t s s1 → Inv keys s1 → c.exec keys t call s1 e = some (s2, a) →
      Inv keys s2 ∧ (∀ u, u ≠ t → Others keys u s1 s2) ∧ ∃ b, a = .ok b ∧ P b s2)
    (h : ∀ b s', P b s' → Wp α keys t call Q (f b) s') : Wp α keys t call Q (.call c f) s := by
  refine .stmt fun s1 e s2 a h1 hinv _ hx => ?_
  obtain ⟨hinv2, hothers, b, rfl, hb⟩ := hc s1 e s2 a h1 hinv hx
  exact ⟨hinv2, hothers, h b s2 hb⟩

/-! ### Statements that change nothing -/

/-- The statements that leave the databases, the files and the ids. -/
def quiet : Stmt α → Bool
  | .newUuid | .writeAuditRecord _ | .writeLine _ => false
  | _ => true

/-- What is known of the answer of a statement. -/
def Told (keys : TenantKeys) (s : Trail) : (c : Stmt α) → c.Answer → Prop
  | .getOrOpen tenantId, answer => ∀ pepper, answer = some pepper → pepper = keys.pepper tenantId
  | .getOrCreateDek tenantId customerId, answer =>
    ∀ dek, answer = some dek → dek = keys.dek tenantId customerId
  | .read f, answer => ∀ text, answer = some text → s.MayHold f text
  | _, _ => True

omit [HmacSha256] [Aes256Gcm] in
/-- A quiet statement changes nothing and tells what there is. -/
theorem exec_quiet {c : Stmt α} {e : TxEvent α} {a : Except SmsSenderError c.Answer}
    (hq : quiet c = true) (hx : (TxStmt.of c).exec keys t call s e = some (s', a)) :
    s' = s ∧ ∃ b, a = .ok b ∧ Told keys s c b := by
  cases c with
  | newUuid | writeAuditRecord | writeLine => cases hq
  | read f =>
    cases e with
    | of e => cases e <;> cases hx
    | contents text =>
      cases text with
      | none =>
        cases hx
        exact ⟨rfl, _, rfl, nofun⟩
      | some text =>
        simp only [TxStmt.exec] at hx
        split at hx
        · next hholds =>
          cases hx
          refine ⟨rfl, _, rfl, fun text' h => ?_⟩
          cases h
          exact hholds
        · cases hx
  | getOrOpen | getOrCreateDek =>
    rcases e with e | _
    · cases e <;> cases hx
      · exact ⟨rfl, _, rfl, fun _ h => (Option.some.inj h).symm⟩
      · exact ⟨rfl, _, rfl, nofun⟩
    · cases hx
  | _ =>
    rcases e with e | _
    · cases e <;> cases hx <;> exact ⟨rfl, _, rfl, trivial⟩
    · cases hx

theorem wp_quiet {c : Stmt α} {f : c.Answer → Program α β} (hq : quiet c = true)
    (h : ∀ b s', Others keys t s s' → Told keys s' c b →
      Wp α keys t call Q (transactional (f b)) s') :
    Wp α keys t call Q (transactional (Prog.stmt c >>= f)) s := by
  have hcall : transactional (.stmt c >>= f) = .call (.of c) fun a => transactional (f a) := by
    cases c with
    | writeAuditRecord r => cases hq
    | _ => rfl
  rw [hcall]
  refine wp_stmt (fun b s' => Others keys t s s' ∧ Told keys s' c b)
    (fun s1 e s2 a h1 hinv hx => ?_) fun b s' hb => h b s' hb.1 hb.2
  obtain ⟨rfl, b, rfl, hb⟩ := exec_quiet hq hx
  exact ⟨hinv, fun u _ => .refl u _, b, rfl, h1, hb⟩

/-! ### The id of a request -/

/-- The thread has drawn the id, and there is no version of its record. -/
structure Drawn (t : Nat) (s : Trail) (i : Issue) : Prop where
  issued : i ∈ s.issued
  thread : i.thread = t
  unused : ∀ e ∈ s.versions, e.commsRequestId ≠ i.id

theorem Drawn.may {i : Issue} {e : Entry} (h : Drawn t s i) (hid : i.id = e.commsRequestId)
    (hf : i.Fits (e.facts keys)) : May keys t s e :=
  .inr ⟨i, ⟨h.issued, h.thread, fun e he hid => absurd hid (h.unused e he)⟩, hid, hf⟩

theorem Drawn.later {i : Issue} (h : Drawn t s i) (hs : Others keys t s s') :
    Drawn t s' i where
  issued := hs.issued i h.issued
  thread := h.thread
  unused e he hid := by
    obtain ⟨e0, he0, hsame⟩ := hs.own i h.issued h.thread e he hid
    exact h.unused e0 he0 (hsame.1.trans hid)

/-- The id that a request draws is new. -/
theorem wp_newUuid {producer : ProducerContext} {body : SendOtpRequest} {f : Uuid → Program α β}
    (h : ∀ id s', Drawn t s' ⟨id, t, producer, body⟩ →
      Wp α keys t (.sendOtp producer body) Q (transactional (f id)) s') :
    Wp α keys t (.sendOtp producer body) Q (transactional (Program.newUuid >>= f)) s := by
  refine wp_stmt (c := .of .newUuid) (fun id s' => Drawn t s' ⟨id, t, producer, body⟩)
    (fun s1 e s2 a _ hinv hx => ?_) h
  rcases e with e | _
  · cases e with
    | uuid id =>
      simp only [TxStmt.exec] at hx
      split at hx
      · next hfresh =>
        cases hx
        obtain ⟨hnew, hrows⟩ := hfresh
        have hunused : ∀ e ∈ s1.versions, e.commsRequestId ≠ id := by
          intro e he hid
          obtain ⟨i, hi, hie, -⟩ := hinv.origin e he
          exact hnew i hi (hie.trans hid)
        refine ⟨⟨fun i hi j hj hij => ?_, hinv.agree, fun e he => ?_, fun tenantId x hx => ?_,
          hinv.committed⟩, fun u hu => ⟨fun _ => .refl _ _ _, fun _ h => h, fun _ h => h,
          fun _ => .tail _, fun _ _ _ _ he _ => seen_of_mem he⟩, id, rfl,
          ⟨.head _, rfl, hunused⟩⟩
        · rcases mem_cons.1 hi with rfl | hi <;> rcases mem_cons.1 hj with rfl | hj
          · rfl
          · exact absurd hij.symm (hnew j hj)
          · exact absurd hij (hnew i hi)
          · exact hinv.issued i hi j hj hij
        · obtain ⟨i, hi, h⟩ := hinv.origin e he
          exact ⟨i, .tail _ hi, h⟩
        · refine (hinv.rows tenantId x hx).imp_left fun h => ?_
          refine forall_mem_cons.2 ⟨fun ht hid => ?_, h⟩
          subst ht
          exact hrows x hx hid.symm
      · cases hx
    | _ => cases hx
  · cases hx

/-! ### Versions -/

/-- A line is written for a record the thread may write. -/
theorem wp_writeLine {e : Entry} {f : Bool → Program α β} (hmay : May keys t s e)
    (h : ∀ b s', (∀ e ∈ s.versions, e ∈ s'.versions) →
      Wp α keys t call Q (transactional (f b)) s') :
    Wp α keys t call Q (transactional (Program.writeLine e >>= f)) s := by
  refine wp_stmt (c := .of (.writeLine e)) (fun _ s' => ∀ e ∈ s.versions, e ∈ s'.versions)
    (fun s1 event s2 a h1 hinv hx => ?_) h
  have hv : ∀ e', e' ∈ ({ s1 with written := e :: s1.written } : Trail).versions ↔
      e' = e ∨ e' ∈ s1.versions := by
    intro e'
    simp only [versions, mem_append, mem_cons]
    tauto
  have hmay1 := hmay.later h1
  have hkept : Inv keys { s1 with written := e :: s1.written } ∧
      (∀ u, u ≠ t → Others keys u s1 { s1 with written := e :: s1.written }) ∧
      ∀ e' ∈ s.versions, e' ∈ ({ s1 with written := e :: s1.written } : Trail).versions :=
    ⟨hinv.version hmay1 hv rfl (fun _ h => h) rfl rfl,
      fun u hu => .version hinv hmay1 hu hv rfl (fun _ h => h) rfl,
      fun e' he' => (hv e').2 (.inr (h1.versions e' he'))⟩
  rcases event with event | _
  · cases event <;> cases hx <;> exact ⟨hkept.1, hkept.2.1, _, rfl, hkept.2.2⟩
  · cases hx

/-- Known in a transaction for a record: a write was begun, and the versions of before are there. -/
structure Writing (r : AuditRecord) (s0 s : Trail) : Prop where
  begun : r ∈ s.begun
  versions : ∀ e ∈ s0.versions, e ∈ s.versions

theorem Writing.later (h : Writing r s0 s) (hs : Others keys t s s') : Writing r s0 s' :=
  ⟨hs.begun r h.begun, fun e he => hs.versions e (h.versions e he)⟩

/-- A row with the key is there for the transaction. -/
def Held (t : Nat) (s : Trail) (tenantId : Uuid) (k : Row.Key) : Prop :=
  ∃ row ∈ (s.stores tenantId).visible (some t), row.key = k

theorem Held.later {k : Row.Key} (h : Held t s tenantId k) (hs : Others keys t s s') :
    Held t s' tenantId k := by
  obtain ⟨row, hr, hk⟩ := h
  exact ⟨row, (hs.stores tenantId).visible trivial hr, hk⟩

/-! ### Transactions -/

/-- An insertion of an accounted row. -/
theorem insert_spec {row : Row} (hinv : Inv keys s) (hrow : s.Accounted tenantId row)
    (h : s.insert t tenantId row = some s') :
    Inv keys s' ∧ (∀ u, u ≠ t → Others keys u s s') ∧ Held t s' tenantId row.key ∧
      (∀ k, Held t s tenantId k → Held t s' tenantId k) ∧ s'.begun = s.begun ∧
      s'.versions = s.versions := by
  obtain ⟨⟨a, db⟩, hdb, rfl⟩ := map_eq_some_iff.1 h
  obtain ⟨row', hr', hk⟩ := Tx.Store.exists_visible_insert rfl rfl hdb
  have hentries : ∀ e ∈ db.entries, e ∈ (s.stores tenantId).entries ∨ e = ⟨some t, row⟩ := by
    intro e he
    rcases Tx.Store.insert_cases hdb with ⟨hadd, -⟩ | rfl
    · rw [hadd] at he
      exact (mem_append.1 he).imp_right mem_singleton.1
    · exact .inl he
  refine ⟨hinv.setStore (fun e he => ?_) fun r hr => ?_, fun u hu => .setStore (.insert ?_ hdb),
    ⟨row', ?_, (mem_singleton.1 hk).symm⟩, ?_, rfl, rfl⟩
  · rcases hentries e he with he | rfl
    · exact hinv.rows tenantId e he
    · exact hrow
  · have hothers : Tx.Others (fun _ => True) (t + 1) (s.stores tenantId) db :=
      .insert (by simp) hdb
    exact hothers.committed r trivial hr
  · simpa using hu.symm
  · simpa using hr'
  · rintro k ⟨row0, h0, hk0⟩
    refine ⟨row0, ?_, hk0⟩
    rw [stores_setStore]
    exact (Tx.Store.mem_visible_insert rfl rfl hdb).2 (.inl h0)

theorem rollback_spec (hinv : Inv keys s) :
    Inv keys (s.rollback t tenantId) ∧ ∀ u, u ≠ t → Others keys u s (s.rollback t tenantId) := by
  refine ⟨hinv.setStore (fun e he => ?_) fun row hr => ?_,
    fun u hu => .setStore (.rollback hu.symm)⟩
  · exact hinv.rows tenantId e (Tx.Store.mem_rollback.1 he).1
  · exact Tx.Store.mem_rollback.2 ⟨hr, nofun⟩

/-- A commit of a transaction for a record that has rows with both keys. -/
theorem commit_spec (hinv : Inv keys s) (hbegun : r ∈ s.begun)
    (hq : Held t s r.tenantId (.request (r.createdAt, r.commsRequestId)))
    (he : Held t s r.tenantId (.event r.event.key)) :
    Inv keys (s.commit t r) ∧ ∀ u, u ≠ t → Others keys u s (s.commit t r) := by
  have hhas : ∀ k, Held t s r.tenantId k → (s.commit t r).Has r.tenantId k := by
    rintro k ⟨row, hr, hk⟩
    refine ⟨row, ?_, hk⟩
    simp only [Trail.commit, stores_setStore]
    exact Tx.Store.committed_commit_iff.2 hr
  have hset : Inv keys (s.setStore r.tenantId ((s.stores r.tenantId).commit t)) := by
    refine hinv.setStore (fun e he => ?_) fun row hr => Tx.Store.committed_commit.2 (.inl hr)
    rcases Tx.Store.mem_commitEntries.1 he with ⟨he, -⟩ | ⟨-, hr⟩
    · exact hinv.rows _ e he
    · exact hinv.rows _ ⟨some t, e.row⟩ (Tx.Store.mem_pending.1 hr)
  refine ⟨⟨hset.issued, hset.agree, hset.origin, hset.rows, fun r' hr' => ?_⟩, fun u hu => ?_⟩
  · rcases mem_cons.1 hr' with rfl | hr'
    · exact ⟨hbegun, hhas _ hq, hhas _ he⟩
    · exact hset.committed r' hr'
  · have h : Others keys u s (s.setStore r.tenantId ((s.stores r.tenantId).commit t)) :=
      .setStore (.commit hu.symm)
    exact ⟨h.stores, h.begun, h.versions, h.issued, h.own⟩

/-- The begin of a transaction, for a version that may be made. -/
theorem wp_begin {f : Bool → TxProgram α β} (hmay : May keys t s (.audit r))
    (hdone : ∀ s', Writing r s s' → Wp α keys t call Q (f true) s')
    (hfails : ∀ s', Others keys t s s' → Wp α keys t call Q (f false) s') :
    Wp α keys t call Q (TxProgram.begin r >>= f) s := by
  refine wp_stmt (c := .begin r)
    (fun b s' => b = true ∧ Writing r s s' ∨ b = false ∧ Others keys t s s')
    (fun s1 event s2 a h1 hinv hx => ?_) ?_
  · have hv : ∀ e', e' ∈ ({ s1 with begun := r :: s1.begun } : Trail).versions ↔
        e' = .audit r ∨ e' ∈ s1.versions := by
      intro e'
      simp only [versions, map_cons, cons_append, mem_cons]
    have hmay1 := hmay.later h1
    rcases event with event | _
    · cases event with
      | done =>
        cases hx
        refine ⟨hinv.version hmay1 hv rfl (fun _ => .tail _) rfl rfl,
          fun u hu => .version hinv hmay1 hu hv rfl (fun _ => .tail _) rfl, true, rfl,
          .inl ⟨rfl, .head _, fun e he => (hv e).2 (.inr (h1.versions e he))⟩⟩
      | fails =>
        cases hx
        exact ⟨hinv, fun u _ => .refl u _, false, rfl, .inr ⟨rfl, h1⟩⟩
      | _ => cases hx
    · cases hx
  · rintro b s' (⟨rfl, hw⟩ | ⟨rfl, hs⟩)
    · exact hdone s' hw
    · exact hfails s' hs

/-- After an insertion the transaction has its key. -/
theorem wp_insert {row : Row} {f : Bool → TxProgram α β} (hw : Writing r s0 s) (hrow : row.IsOf r)
    (hdone : ∀ s', Writing r s0 s' → Held t s' r.tenantId row.key →
      (∀ k, Held t s r.tenantId k → Held t s' r.tenantId k) →
      Wp α keys t call Q (f true) s')
    (hfails : ∀ s', Writing r s0 s' → Wp α keys t call Q (f false) s') :
    Wp α keys t call Q (TxProgram.insert r row >>= f) s := by
  refine wp_stmt (c := .insert r row)
    (fun b s' => Writing r s0 s' ∧ (b = true → Held t s' r.tenantId row.key ∧
      ∀ k, Held t s r.tenantId k → Held t s' r.tenantId k))
    (fun s1 event s2 a h1 hinv hx => ?_) ?_
  · have hw1 := hw.later h1
    rcases event with event | _
    · cases event with
      | done =>
        obtain ⟨s', hins, heq⟩ := map_eq_some_iff.1 hx
        cases heq
        obtain ⟨hinv', hothers, hheld, hkept, hb, hv⟩ :=
          insert_spec hinv (.inr ⟨r, hw1.begun, rfl, hrow⟩) hins
        exact ⟨hinv', hothers, true, rfl, ⟨hb ▸ hw1.begun, hv ▸ hw1.versions⟩, fun _ =>
          ⟨hheld, fun k hk => hkept k (hk.later h1)⟩⟩
      | fails =>
        cases hx
        obtain ⟨hinv', hothers⟩ := rollback_spec hinv
        exact ⟨hinv', hothers, false, rfl, ⟨hw1.begun, hw1.versions⟩, nofun⟩
      | _ => cases hx
    · cases hx
  · rintro b s' ⟨hw', hheld⟩
    cases b with
    | true => exact hdone s' hw' (hheld rfl).1 (hheld rfl).2
    | false => exact hfails s' hw'

/-- A commit with both rows. -/
theorem wp_commit {f : Bool → TxProgram α β} (hw : Writing r s0 s)
    (hq : Held t s r.tenantId (.request (r.createdAt, r.commsRequestId)))
    (he : Held t s r.tenantId (.event r.event.key))
    (h : ∀ b s', Writing r s0 s' → Wp α keys t call Q (f b) s') :
    Wp α keys t call Q (TxProgram.commit r >>= f) s := by
  refine wp_stmt (c := .commit r) (fun _ => Writing r s0) (fun s1 event s2 a h1 hinv hx => ?_) h
  have hw1 := hw.later h1
  have hcommit := commit_spec hinv hw1.begun (hq.later h1) (he.later h1)
  have hwritten : Writing r s0 (s1.commit t r) := ⟨hw1.begun, hw1.versions⟩
  rcases event with event | _
  · cases event with
    | done | lost =>
      cases hx
      exact ⟨hcommit.1, hcommit.2, _, rfl, hwritten⟩
    | fails =>
      cases hx
      obtain ⟨hinv', hothers⟩ := rollback_spec hinv
      exact ⟨hinv', hothers, _, rfl, ⟨hw1.begun, hw1.versions⟩⟩
    | _ => cases hx
  · cases hx

/-- The transaction keeps the rules; the thread may make the version again. -/
theorem writeAuditRecord_spec (hmay : May keys t s (.audit r)) : Wp α keys t call
      (Returns fun _ s' => May keys t s' (.audit r) ∧ ∀ e ∈ s.versions, e ∈ s'.versions)
      (TxProgram.writeAuditRecord r) s := by
  have hret : ∀ (b : Bool) s', Writing r s s' → Wp α keys t call
      (Returns fun _ s' => May keys t s' (.audit r) ∧ ∀ e ∈ s.versions, e ∈ s'.versions)
      (pure b) s' := by
    intro b s' hw
    refine .ret fun s'' hs => ?_
    have hw' := hw.later hs
    exact ⟨.inl (seen_of_mem (audit_mem_versions hw'.begun)), hw'.versions⟩
  refine wp_begin hmay (fun s1 h1 => ?_) fun s1 h1 => ?_
  · refine wp_stmt (c := .of .now) (fun _ => Writing r s) (fun s2 e s3 a h2 hinv hx => ?_) ?_
    · obtain ⟨rfl, b, rfl, -⟩ := exec_quiet rfl hx
      exact ⟨hinv, fun u _ => .refl u _, b, rfl, h1.later h2⟩
    · intro finalizedAt s2 h2
      refine wp_insert h2 (.inl ⟨finalizedAt, rfl⟩) (fun s3 h3 hq _ => ?_) (hret false)
      refine wp_insert h3 (.inr rfl) (fun s4 h4 he hkept => ?_) (hret false)
      exact wp_commit (f := pure) h4 (hkept _ hq) he hret
  · refine .ret fun s2 h2 => ?_
    have hs := h1.trans h2
    exact ⟨hmay.later hs, hs.versions⟩

end

end Trail

end Messgr.SmsSender
