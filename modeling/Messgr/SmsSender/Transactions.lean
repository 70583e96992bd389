import Messgr.Lib.Tx
import Messgr.SmsSender.Buffers

/-!
# The transactions of the sender of one-time codes

`write_audit_record` is a transaction of two insertions, and any number of them run at the same
time. `transactional` replaces the one statement that the programs of the sender make for it by the
statements of the transaction, and `txSystem` runs the result over one store for every tenant
database. Of the files only what was written to them is kept: a drain finds any text whose records
were. Alone, a transaction is that one statement (`Represents.written_as_one`); what several of them
come to is in `Idempotence.lean`.
-/

namespace Messgr.SmsSender

/-! ## Rows -/

/-- A row of one of the two tables that are written. -/
inductive Row
  | request (r : CommsRequest)
  | event (e : CommsEvent)
deriving DecidableEq

namespace Row

/-- The request that a row is about. -/
def commsRequestId : Row → Uuid
  | .request r => r.id
  | .event e => e.commsRequestId

inductive Key
  | request (key : Time × Uuid)
  | event (key : Time × Uuid × Status × String)
deriving DecidableEq

/-- The primary key of a request and the unique constraint of an event. -/
def key : Row → Key
  | .request r => .request r.key
  | .event e => .event e.key

theorem key_eq_request {k : Time × Uuid} (row : Row) :
    row.key = .request k ↔ ∃ q, row = .request q ∧ q.key = k := by
  cases row with
  | request q => simp [key]
  | event e => simp [key]

theorem key_eq_event {k : Time × Uuid × Status × String} (row : Row) :
    row.key = .event k ↔ ∃ e, row = .event e ∧ e.key = k := by
  cases row with
  | request q => simp [key]
  | event e => simp [key]

instance : Tx.Schema Row Key where
  keys row := [row.key]
  refs _ := []

end Row

/-! ## Statements -/

/-- A statement of a program, with those of the transaction in place of `writeAuditRecord`. -/
inductive TxStmt (α : Type)
  | of (c : Stmt α)
  | begin (r : AuditRecord)
  | insert (r : AuditRecord) (row : Row)
  | commit (r : AuditRecord)

/-- What it answers: of a statement of the transaction whether it did not fail. -/
def TxStmt.Answer {α : Type} : TxStmt α → Type
  | .of c => c.Answer
  | .begin _ => Bool
  | .insert _ _ => Bool
  | .commit _ => Bool

abbrev TxProgram (α : Type) := Prog (@TxStmt.Answer α) SmsSenderError

namespace TxProgram

variable {α β : Type}

def now : TxProgram α Time := Prog.stmt (TxStmt.of .now)

def begin (r : AuditRecord) : TxProgram α Bool := Prog.stmt (TxStmt.begin r)

def insert (r : AuditRecord) (row : Row) : TxProgram α Bool := Prog.stmt (TxStmt.insert r row)

def commit (r : AuditRecord) : TxProgram α Bool := Prog.stmt (TxStmt.commit r)

/-- Whether the record was written, as far as the caller knows. Source: `src/sms_sender/repo.rs`. -/
def writeAuditRecord (r : AuditRecord) : TxProgram α Bool := do
  if ← begin r then
    let finalizedAt ← now
    if ← insert r (.request (r.request finalizedAt)) then
      if ← insert r (.event r.event) then commit r
      else return false
    else return false
  else return false

/-- A program with the transaction for each write of a record. -/
def transactional : Program α β → TxProgram α β
  | .ret b => .ret b
  | .fail e => .fail e
  | .call (.writeAuditRecord r) k => writeAuditRecord r >>= fun written => transactional (k written)
  | .call c k => .call (.of c) fun a => transactional (k a)

end TxProgram

/-! ## State -/

/-- The keys of the tenants: the pepper of each, and the data key of each of its customers. -/
structure TenantKeys where
  pepper : Uuid → Bytes
  dek : Uuid → Uuid → Bytes

/-- A request that has drawn its id. -/
structure Issue where
  id : Uuid
  thread : Nat
  producer : ProducerContext
  body : SendOtpRequest
deriving DecidableEq

/-- The tenant databases and what was written to the files, and what is only recorded: the ids
drawn, the records of which a write was begun and of which one was committed. -/
structure Trail where
  stores : Uuid → Tx.Store Row
  written : List Entry
  issued : List Issue
  begun : List AuditRecord
  committed : List AuditRecord

namespace Trail

/-- The databases before the first request. -/
def start (stores : Uuid → Tx.Store Row) : Trail := ⟨stores, [], [], [], []⟩

def setStore (s : Trail) (tenantId : Uuid) (db : Tx.Store Row) : Trail :=
  { s with stores := fun id => if id = tenantId then db else s.stores id }

@[simp] theorem stores_setStore {s : Trail} {tenantId : Uuid} {db : Tx.Store Row} :
    (s.setStore tenantId db).stores tenantId = db := if_pos rfl

/-- The transaction of a thread is over, without its rows. -/
def rollback (s : Trail) (t : Nat) (tenantId : Uuid) : Trail :=
  s.setStore tenantId ((s.stores tenantId).rollback t)

/-- The transaction of a thread for a record is over, with its rows. -/
def commit (s : Trail) (t : Nat) (r : AuditRecord) : Trail :=
  { s.setStore r.tenantId ((s.stores r.tenantId).commit t) with committed := r :: s.committed }

/-- `INSERT .. ON CONFLICT .. DO NOTHING` on the constraint of the row's table. -/
def insert (s : Trail) (t : Nat) (tenantId : Uuid) (row : Row) : Option Trail :=
  ((s.stores tenantId).insert (some t) [row.key] row).map fun p => s.setStore tenantId p.2

/-- No request has drawn the id, and the tenant has no row of it: what `Uuid::new_v4` is for. -/
def Fresh (s : Trail) (tenantId id : Uuid) : Prop :=
  (∀ i ∈ s.issued, i.id ≠ id) ∧ ∀ e ∈ (s.stores tenantId).entries, e.row.commsRequestId ≠ id

instance {s : Trail} {tenantId id : Uuid} : Decidable (s.Fresh tenantId id) :=
  inferInstanceAs (Decidable (_ ∧ _))

section
variable {α : Type} [RecordLines α]

/-- The record that a line of a file is. -/
def entryOf : File → List α → Option Entry
  | .buffer, line => (RecordLines.ofAuditLine line).map .audit
  | .pending, line => (RecordLines.ofPendingLine line).map .pending

/-- The file may hold the text: its records were written to it. A line that was cut short, with or
without the next one behind it, is no JSON. -/
def MayHold (s : Trail) (f : File) (text : List (Option α)) : Prop :=
  ∀ line ∈ Program.contentLines text, ∀ e ∈ entryOf f line, e ∈ s.written

instance {s : Trail} {f : File} {text : List (Option α)} : Decidable (s.MayHold f text) :=
  inferInstanceAs (Decidable (∀ line ∈ _, ∀ e ∈ entryOf f line, e ∈ s.written))

end

end Trail

/-! ## The process -/

/-- What the environment decides about a statement, and about a read what the file holds. -/
inductive TxEvent (α : Type)
  | of (e : Event)
  | contents (text : Option (List (Option α)))

section
variable {α : Type} [RecordLines α] (keys : TenantKeys)

/-- What one statement does. One of a transaction that fails ends it, and a commit may be made
although it is reported as failed. A line that is cut short counts as written. -/
def TxStmt.exec (t : Nat) (call : Call) (s : Trail) :
    (c : TxStmt α) → TxEvent α → Option (Trail × Except SmsSenderError c.Answer)
  | .of .newUuid, .of (.uuid id) =>
    match call with
    | .sendOtp producer body =>
      if s.Fresh producer.tenant.tenantId id then
        some ({ s with issued := ⟨id, t, producer, body⟩ :: s.issued }, .ok id)
      else none
    | _ => none
  | .of .now, .of (.time now) => some (s, .ok now)
  | .of .nonce, .of (.nonce n) => some (s, .ok n)
  | .of (.isEnabled _), .of (.flag b) => some (s, .ok b)
  | .of (.send _ _ _), .of (.sent r) => some (s, .ok r)
  | .of (.getOrOpen tenantId), .of .done => some (s, .ok (some (keys.pepper tenantId)))
  | .of (.getOrOpen _), .of .fails => some (s, .ok none)
  | .of (.getOrCreateDek tenantId customerId), .of .done =>
    some (s, .ok (some (keys.dek tenantId customerId)))
  | .of (.getOrCreateDek _ _), .of .fails => some (s, .ok none)
  | .of (.openAppend _), .of .done => some (s, .ok true)
  | .of (.openAppend _), .of .fails => some (s, .ok false)
  | .of (.writeLine e), .of .done => some ({ s with written := e :: s.written }, .ok true)
  | .of (.writeLine e), .of (.cut _) => some ({ s with written := e :: s.written }, .ok false)
  | .of (.writeEnd _), .of .done => some (s, .ok true)
  | .of (.writeEnd _), .of .fails => some (s, .ok false)
  | .of (.syncAll _), .of .done => some (s, .ok true)
  | .of (.syncAll _), .of .fails => some (s, .ok false)
  | .of (.read _), .contents none => some (s, .ok none)
  | .of (.read f), .contents (some text) =>
    if s.MayHold f text then some (s, .ok (some text)) else none
  | .of (.rewrite _ _), .of .done => some (s, .ok ())
  | .begin r, .of .done => some ({ s with begun := r :: s.begun }, .ok true)
  | .begin _, .of .fails => some (s, .ok false)
  | .insert r row, .of .done => (s.insert t r.tenantId row).map fun s' => (s', .ok true)
  | .insert r _, .of .fails => some (s.rollback t r.tenantId, .ok false)
  | .commit r, .of .done => some (s.commit t r, .ok true)
  | .commit r, .of (.lost _) => some (s.commit t r, .ok false)
  | .commit r, .of .fails => some (s.rollback t r.tenantId, .ok false)
  | _, _ => none

/-- A request comes with the pepper of its tenant. -/
def Call.Opened : Call → Prop
  | .sendOtp producer _ => producer.tenant.pepper = keys.pepper producer.tenant.tenantId
  | _ => True

instance : (call : Call) → Decidable (call.Opened keys)
  | .sendOtp _ _ => inferInstanceAs (Decidable (_ = _))
  | .drainBuffer => .isTrue trivial
  | .drainPending => .isTrue trivial

variable (α) in
/-- The requests and the drain loops of the processes that run one after the other. A process that
is killed fails at the statements it is at and makes no more. -/
def txSystem [HmacSha256] [Aes256Gcm] :
    Sys Trail Call (TxEvent α) Empty (@TxStmt.Answer α) SmsSenderError (Option Uuid) where
  body call := TxProgram.transactional ((system α).body call)
  start _ call s := if call.Opened keys then some s else none
  exec t call c e s := c.exec keys t call s e
  env x _ := nomatch x

variable (α) in
abbrev TxState := Pool Trail Call (@TxStmt.Answer α) SmsSenderError (Option Uuid)

variable (α) in
abbrev TxMove := Sys.Act Call (TxEvent α) Empty

end

/-! ## The transaction as one statement -/

/-- The store's committed rows are those of the two tables, and no transaction is open. -/
structure Represents (t : Nat) (db : Tx.Store Row) (tables : TenantDb) : Prop where
  request : ∀ q, db.Committed (.request q) ↔ q ∈ tables.commsRequest
  event : ∀ e, db.Committed (.event e) ↔ e ∈ tables.commsEvent
  idle : db.pending t = []

section
variable {t : Nat} {db : Tx.Store Row} {tables : TenantDb} {r : AuditRecord}

theorem Represents.mem_visible (h : Represents t db tables) {row : Row} :
    row ∈ db.visible (some t) ↔ db.Committed row := by
  rw [Tx.Store.mem_visible_some, h.idle]
  exact ⟨fun hr => hr.resolve_right nofun, .inl⟩

/-- Whether the key is free, among visible rows and in the table of the key. -/
theorem forall_key {β κ : Type} {row : β → Row} {key : β → κ} {toKey : κ → Row.Key}
    {rows : List Row} {table : List β} {k : κ}
    (hkey : ∀ x : Row, x.key = toKey k ↔ ∃ b, x = row b ∧ key b = k)
    (h : ∀ b, row b ∈ rows ↔ b ∈ table) :
    (∀ x ∈ rows, toKey k ∉ Tx.Schema.keys x) ↔ ∀ b ∈ table, key b ≠ k := by
  constructor
  · intro hfree b hb hk
    exact hfree _ ((h b).2 hb) (List.mem_singleton.2 ((hkey _).2 ⟨b, rfl, hk⟩).symm)
  · intro hfree x hx hk
    obtain ⟨b, rfl, hb⟩ := (hkey x).1 (List.mem_singleton.1 hk).symm
    exact hfree b ((h b).1 hx) hb

/-- A transaction that nothing comes between is the one statement of the programs. -/
theorem Represents.written_as_one {s s1 s2 : Trail} {finalizedAt : Time}
    (h : Represents t (s.stores r.tenantId) tables)
    (h1 : s.insert t r.tenantId (.request (r.request finalizedAt)) = some s1)
    (h2 : s1.insert t r.tenantId (.event r.event) = some s2) :
    Represents t ((s2.commit t r).stores r.tenantId)
      (Messgr.writeAuditRecord tables finalizedAt r) := by
  obtain ⟨⟨a1, db1⟩, hdb1, rfl⟩ := Option.map_eq_some_iff.1 h1
  obtain ⟨⟨a2, db2⟩, hdb2, rfl⟩ := Option.map_eq_some_iff.1 h2
  rw [Trail.stores_setStore] at hdb2
  have hvisible1 : ∀ row, row ∈ db1.visible (some t) ↔ _ :=
    fun row => Tx.Store.mem_visible_insert rfl rfl hdb1
  have hvisible2 : ∀ row, row ∈ db2.visible (some t) ↔ _ :=
    fun row => Tx.Store.mem_visible_insert rfl rfl hdb2
  have hrequests : ∀ q, .request q ∈ (s.stores r.tenantId).visible (some t) ↔
      q ∈ tables.commsRequest.rows := fun q => h.mem_visible.trans (h.request q)
  have hevents : ∀ e, .event e ∈ db1.visible (some t) ↔ e ∈ tables.commsEvent.rows := by
    intro e
    rw [hvisible1, h.mem_visible, h.event]
    exact ⟨fun he => he.resolve_right nofun, .inl⟩
  have hrequest := forall_key (k := (r.request finalizedAt).key) Row.key_eq_request hrequests
  have hevent := forall_key (k := r.event.key) Row.key_eq_event hevents
  simp only [Trail.commit, Trail.stores_setStore]
  refine ⟨fun q => ?_, fun e => ?_, Tx.Store.pending_commit⟩
  · calc (db2.commit t).Committed (.request q)
      _ ↔ .request q ∈ db2.visible (some t) := Tx.Store.committed_commit_iff
      _ ↔ .request q ∈ db1.visible (some t) :=
        (hvisible2 _).trans ⟨fun hq => hq.resolve_right nofun, .inl⟩
      _ ↔ _ := (hvisible1 _).trans (or_congr (hrequests q)
        (and_congr ⟨Row.request.inj, congrArg _⟩ hrequest))
      _ ↔ _ := mem_request_writeAuditRecord.symm
  · calc (db2.commit t).Committed (.event e)
      _ ↔ .event e ∈ db2.visible (some t) := Tx.Store.committed_commit_iff
      _ ↔ _ := (hvisible2 _).trans (or_congr (hevents e)
        (and_congr ⟨Row.event.inj, congrArg _⟩ hevent))
      _ ↔ _ := mem_event_writeAuditRecord.symm

end

/-- A record that is written, and written again. -/
theorem Represents.written_as_one_twice :
    let r : AuditRecord := ⟨⟨1⟩, ⟨7⟩, 0, ⟨3⟩, [], [], ⟨2⟩, .sent, "ref", none⟩
    let tables := Messgr.writeAuditRecord .empty 5 r
    ∃ s1 s2 s3 s4, (Trail.start fun _ => .empty).insert 0 ⟨1⟩ (.request (r.request 5)) = some s1 ∧
      s1.insert 0 ⟨1⟩ (.event r.event) = some s2 ∧
      Represents 0 ((s2.commit 0 r).stores ⟨1⟩) tables ∧
      (s2.commit 0 r).insert 0 ⟨1⟩ (.request (r.request 6)) = some s3 ∧
      s3.insert 0 ⟨1⟩ (.event r.event) = some s4 ∧
      Represents 0 ((s4.commit 0 r).stores ⟨1⟩) (Messgr.writeAuditRecord tables 6 r) := by
  intro r tables
  refine ⟨_, _, _, _, rfl, rfl, ?first, rfl, rfl, Represents.written_as_one ?first rfl rfl⟩
  exact Represents.written_as_one (r := r) (s := .start fun _ => .empty)
    ⟨fun _ => iff_of_false nofun nofun, fun _ => iff_of_false nofun nofun, rfl⟩ rfl rfl

end Messgr.SmsSender
