import Messgr.Dispatcher.Worker
import Messgr.Keys
import Messgr.Lib.Lines
import Messgr.Lib.Prog
import Messgr.Receipts.Repo

/-!
# The sender of one-time codes

`src/sms_sender`: a code is sent first and recorded afterwards. A record that cannot be encrypted is
appended to the pending file, one that cannot be written to the database to the buffer file, and two
loops drain the files: each pass reads a file, processes its records and rewrites the file with
those that are left. The handlers and the drains are programs over the two files and the tenants'
databases.
-/

namespace Messgr.SmsSender

/-! ## Records and files -/

/-- A record that is not encrypted under the customer's key yet. Source: `src/sms_sender/model.rs`.
-/
structure PendingAuditRecord where
  tenantId : Uuid
  commsRequestId : Uuid
  createdAt : Time
  customerId : Uuid
  producerId : Uuid
  destinationCiphertext : Bytes
  finalStatus : Status
  providerRef : String
  providerStatus : Option String
deriving DecidableEq

/-- What names a record, in either form: the row of `comms_request` that it becomes. -/
structure RecordId where
  tenantId : Uuid
  createdAt : Time
  commsRequestId : Uuid
deriving DecidableEq

def auditId (r : AuditRecord) : RecordId := ⟨r.tenantId, r.createdAt, r.commsRequestId⟩

def PendingAuditRecord.recordId (r : PendingAuditRecord) : RecordId :=
  ⟨r.tenantId, r.createdAt, r.commsRequestId⟩

/-- `serde_json` on records: one line each, over symbols of which some are white space. -/
class RecordLines (α : Type) where
  blank : α → Bool
  auditLine : AuditRecord → List α
  ofAuditLine : List α → Option AuditRecord
  pendingLine : PendingAuditRecord → List α
  ofPendingLine : List α → Option PendingAuditRecord
  ofAuditLine_auditLine : ∀ r, ofAuditLine (auditLine r) = some r
  ofPendingLine_pendingLine : ∀ r, ofPendingLine (pendingLine r) = some r
  auditLine_blank : ∀ r, (auditLine r).all blank = false
  pendingLine_blank : ∀ r, (pendingLine r).all blank = false

/-- Lines of one symbol, for runs on fixed inputs. -/
abbrev RecordLines.sample : RecordLines (AuditRecord ⊕ PendingAuditRecord) where
  blank _ := false
  auditLine r := [.inl r]
  ofAuditLine
    | [.inl r] => some r
    | _ => none
  pendingLine r := [.inr r]
  ofPendingLine
    | [.inr r] => some r
    | _ => none
  ofAuditLine_auditLine _ := rfl
  ofPendingLine_pendingLine _ := rfl
  auditLine_blank _ := rfl
  pendingLine_blank _ := rfl

/-- The two files. -/
inductive File
  | buffer
  | pending
deriving DecidableEq

/-- A record on its way to a file. -/
inductive Entry
  | audit (r : AuditRecord)
  | pending (r : PendingAuditRecord)
deriving DecidableEq

namespace Entry

def file : Entry → File
  | .audit _ => .buffer
  | .pending _ => .pending

def recordId : Entry → RecordId
  | .audit r => auditId r
  | .pending r => r.recordId

def line {α : Type} [RecordLines α] : Entry → List α
  | .audit r => RecordLines.auditLine r
  | .pending r => RecordLines.pendingLine r

end Entry

/-! ## Statements -/

/-- No configured provider took the code; with the last failure, if one was tried. Source:
`src/sms_sender/provider.rs`. -/
inductive ProviderSendError
  | exhausted (last : Option SenderError)
deriving DecidableEq

/-- Source: `provider.rs`. -/
def ProviderSendError.providerStatus : ProviderSendError → Option String
  | .exhausted last => last.bind providerStatusOf

/-- One statement of a program. -/
inductive Stmt (α : Type)
  | newUuid
  | now
  | nonce
  | isEnabled (tenantId : Uuid)
  | send (tenantId : Uuid) (destination body : String)
  | getOrOpen (tenantId : Uuid)
  | getOrCreateDek (tenantId customerId : Uuid)
  | writeAuditRecord (r : AuditRecord)
  | openAppend (e : Entry)
  | writeLine (e : Entry)
  | writeEnd (e : Entry)
  | syncAll (e : Entry)
  | read (f : File)
  | rewrite (f : File) (text : List (Option α))

/-- What it answers: of `get_or_open` the tenant's pepper, of a statement that fails or not whether
it did not. -/
def Stmt.Answer {α : Type} : Stmt α → Type
  | .newUuid => Uuid
  | .now => Time
  | .nonce => Nonce
  | .isEnabled _ => Bool
  | .send _ _ _ => Except ProviderSendError SendOutcome
  | .getOrOpen _ => Option Bytes
  | .getOrCreateDek _ _ => Option Bytes
  | .writeAuditRecord _ => Bool
  | .openAppend _ => Bool
  | .writeLine _ => Bool
  | .writeEnd _ => Bool
  | .syncAll _ => Bool
  | .read _ => Option (List (Option α))
  | .rewrite _ _ => Unit

/-- The errors that `send_otp` itself returns; the others are those of finding the producer, before
it. Source: `model.rs`. -/
inductive SmsSenderError
  | authDisabled
  | sendFailed
deriving DecidableEq

/-- Source: `model.rs`, `From<ProviderSendError>`. -/
def SmsSenderError.ofProvider : ProviderSendError → SmsSenderError
  | .exhausted _ => .sendFailed

/-- A function of the source as a program of statements. -/
abbrev Program (α : Type) := Prog (@Stmt.Answer α) SmsSenderError

/-- A program returns, with `P` of what it returns. -/
def Returns {β σ : Type} (P : β → σ → Prop) : Except SmsSenderError β → σ → Prop
  | .ok b, s => P b s
  | .error _, _ => False

/-- What the environment decides about a statement. A write to the database may be committed
although it is reported as failed, and one to a file that fails may have written the first
symbols. -/
inductive Event
  | done
  | fails
  | lost (now : Time)
  | cut (written : Nat)
  | time (now : Time)
  | uuid (id : Uuid)
  | nonce (n : Nonce)
  | flag (b : Bool)
  | sent (r : Except ProviderSendError SendOutcome)
  | opened (pepper : Bytes)
  | dek (plaintext : Bytes)

/-! ## Programs -/

/-- Source: `model.rs`. -/
structure SendOtpRequest where
  customerId : Uuid
  destination : String
  body : String
deriving DecidableEq

/-- What the sender uses of an open tenant. Source: `src/tenant/registry.rs`. -/
structure TenantContext where
  tenantId : Uuid
  pepper : Bytes
deriving DecidableEq

/-- Source: `src/sms_sender/identity.rs`. -/
structure ProducerContext where
  producerId : Uuid
  tenant : TenantContext
deriving DecidableEq

/-- The key that pending records are encrypted under. Source: `src/sms_sender/pending.rs`. -/
def deriveKey [HmacSha256] (pepper : Bytes) : Bytes :=
  HmacSha256.mac pepper (asBytes "sms-sender:pending-buffer-destination-key")

namespace Program

variable {α : Type}

def newUuid : Program α Uuid := Prog.stmt Stmt.newUuid

def now : Program α Time := Prog.stmt Stmt.now

def nonce : Program α Nonce := Prog.stmt Stmt.nonce

def isEnabled (tenantId : Uuid) : Program α Bool := Prog.stmt (Stmt.isEnabled tenantId)

def send (tenantId : Uuid) (destination body : String) :
    Program α (Except ProviderSendError SendOutcome) :=
  Prog.stmt (Stmt.send tenantId destination body)

def getOrOpen (tenantId : Uuid) : Program α (Option Bytes) := Prog.stmt (Stmt.getOrOpen tenantId)

def getOrCreateDek (tenantId customerId : Uuid) : Program α (Option Bytes) :=
  Prog.stmt (Stmt.getOrCreateDek tenantId customerId)

def writeAuditRecord (r : AuditRecord) : Program α Bool := Prog.stmt (Stmt.writeAuditRecord r)

def openAppend (e : Entry) : Program α Bool := Prog.stmt (Stmt.openAppend e)

def writeLine (e : Entry) : Program α Bool := Prog.stmt (Stmt.writeLine e)

def writeEnd (e : Entry) : Program α Bool := Prog.stmt (Stmt.writeEnd e)

def syncAll (e : Entry) : Program α Bool := Prog.stmt (Stmt.syncAll e)

def read (f : File) : Program α (Option (List (Option α))) := Prog.stmt (Stmt.read f)

def rewrite (f : File) (text : List (Option α)) : Program α Unit :=
  Prog.stmt (Stmt.rewrite f text)

/-- Whether a record was appended to its file. `writeln!` writes the line and its end one after the
other. Source: `src/sms_sender/buffer.rs`, `append`; `pending.rs`, `append`. -/
def append (e : Entry) : Program α Bool := do
  if ← openAppend e then
    if ← writeLine e then
      if ← writeEnd e then syncAll e
      else return false
    else return false
  else return false

/-! ### The handler -/

/-- Source: `src/sms_sender/handler.rs`. -/
def persistOrBuffer (record : AuditRecord) : Program α Unit := do
  if ← writeAuditRecord record then return ()
  else
    let _ ← append (.audit record)
    return ()

section
variable [HmacSha256] [Aes256Gcm]

/-- Source: `handler.rs`. -/
def computeDestinationCrypto (tenant : TenantContext) (commsRequestId customerId : Uuid)
    (destination : String) : Program α (Option (Bytes × Bytes)) := do
  match ← getOrCreateDek tenant.tenantId customerId with
  | none => return none
  | some dek =>
    let n ← nonce
    match encrypt n dek commsRequestId.asBytes (asBytes destination) with
    | .ok ciphertext => return some (destinationHmac tenant.pepper destination, ciphertext)
    | .error _ => return none

/-- Source: `handler.rs`. -/
def persistSendOutcome (tenant : TenantContext) (commsRequestId : Uuid) (createdAt : Time)
    (customerId producerId : Uuid) (destination : String) (finalStatus : Status)
    (providerRef : String) (providerStatus : Option String) : Program α Unit := do
  match ← computeDestinationCrypto tenant commsRequestId customerId destination with
  | some (destinationHmac, destinationCiphertext) =>
    persistOrBuffer {
      tenantId := tenant.tenantId
      commsRequestId, createdAt, customerId, producerId, destinationHmac, destinationCiphertext
      finalStatus, providerRef, providerStatus }
  | none =>
    let n ← nonce
    match encrypt n (deriveKey tenant.pepper) commsRequestId.asBytes (asBytes destination) with
    | .ok destinationCiphertext =>
      let _ ← append (.pending {
        tenantId := tenant.tenantId
        commsRequestId, createdAt, customerId, producerId, destinationCiphertext
        finalStatus, providerRef, providerStatus })
      return ()
    | .error _ => return ()

/-- Source: `handler.rs`. -/
def sendOtp (producer : ProducerContext) (body : SendOtpRequest) : Program α Uuid := do
  let tenant := producer.tenant
  let commsRequestId ← newUuid
  let createdAt ← now
  if ← isEnabled tenant.tenantId then
    match ← send tenant.tenantId body.destination body.body with
    | .ok outcome =>
      persistSendOutcome tenant commsRequestId createdAt body.customerId producer.producerId
        body.destination .sent outcome.providerRef (some outcome.providerStatus)
      return commsRequestId
    | .error err =>
      persistSendOutcome tenant commsRequestId createdAt body.customerId producer.producerId
        body.destination .failed "" err.providerStatus
      .fail (.ofProvider err)
  else
    persistOrBuffer {
      tenantId := tenant.tenantId
      commsRequestId, createdAt
      customerId := body.customerId
      producerId := producer.producerId
      destinationHmac := []
      destinationCiphertext := []
      finalStatus := .discarded
      providerRef := ""
      providerStatus := none }
    .fail .authDisabled

end

/-! ### The drains -/

/-- The loop over the lines of a file: `keep` processes a record and says whether it stays. A line
that is no record is dropped. -/
def drainLines {ρ : Type} (ofLine : List α → Option ρ) (keep : ρ → Program α Bool) :
    List (List α) → List ρ → Program α (List ρ)
  | [], remaining => return remaining
  | line :: lines, remaining => do
    match ofLine line with
    | none => drainLines ofLine keep lines remaining
    | some record =>
      if ← keep record then drainLines ofLine keep lines (remaining ++ [record])
      else drainLines ofLine keep lines remaining

section
variable [RecordLines α]

/-- The lines that are not blank. -/
def contentLines (text : List (Option α)) : List (List α) :=
  (Lines.lines text).filter fun line => !line.all RecordLines.blank

/-- One pass over a file. -/
def drain {ρ : Type} (f : File) (ofLine : List α → Option ρ) (toLine : ρ → List α)
    (keep : ρ → Program α Bool) : Program α Unit := do
  match ← read f with
  | none => return ()
  | some contents =>
    let remaining ← drainLines ofLine keep (contentLines contents) []
    rewrite f (Lines.unlines (remaining.map toLine))

/-- A buffered record stays if its tenant cannot be opened or the write fails. Source:
`buffer.rs`, `drain`, the body of its loop. -/
def retryWrite (record : AuditRecord) : Program α Bool := do
  match ← getOrOpen record.tenantId with
  | none => return true
  | some _ =>
    let written ← writeAuditRecord record
    return !written

/-- Source: `buffer.rs`, `drain`. -/
def drainBuffer : Program α Unit :=
  drain .buffer RecordLines.ofAuditLine RecordLines.auditLine retryWrite

variable [HmacSha256] [Aes256Gcm]

/-- A pending record stays until it can be encrypted under the customer's key, and is then written
or buffered. Source: `pending.rs`, `drain`, the body of its loop. -/
def retryCrypto (record : PendingAuditRecord) : Program α Bool := do
  match ← getOrOpen record.tenantId with
  | none => return true
  | some pepper =>
    match ← getOrCreateDek record.tenantId record.customerId with
    | none => return true
    | some dek =>
      let aad := record.commsRequestId.asBytes
      match decrypt (deriveKey pepper) aad record.destinationCiphertext with
      | .error _ => return true
      | .ok bytes =>
        match fromUtf8 bytes with
        | none => return true
        | some destination =>
          let n ← nonce
          match encrypt n dek aad (asBytes destination) with
          | .error _ => return true
          | .ok ciphertext =>
            persistOrBuffer {
              tenantId := record.tenantId
              commsRequestId := record.commsRequestId
              createdAt := record.createdAt
              customerId := record.customerId
              destinationHmac := destinationHmac pepper destination
              destinationCiphertext := ciphertext
              producerId := record.producerId
              finalStatus := record.finalStatus
              providerRef := record.providerRef
              providerStatus := record.providerStatus }
            return false

/-- Source: `pending.rs`, `drain`. -/
def drainPending : Program α Unit :=
  drain .pending RecordLines.ofPendingLine RecordLines.pendingLine retryCrypto

end

end Program

/-! ## The process -/

/-- The files and the databases, and what is only recorded: the drains that have read their file and
not rewritten it, and the records whose append was reported as done. -/
structure Shared (α : Type) where
  buffer : Option (List (Option α))
  pending : Option (List (Option α))
  tenants : Uuid → TenantDb
  draining : List (Nat × File)
  appended : List (File × RecordId)

namespace Shared

variable {α : Type}

/-- No file, and tenants just provisioned. -/
def empty : Shared α := ⟨none, none, fun _ => .empty, [], []⟩

def file (s : Shared α) : File → Option (List (Option α))
  | .buffer => s.buffer
  | .pending => s.pending

/-- What can be read of a file. -/
def text (s : Shared α) (f : File) : List (Option α) := (s.file f).getD []

def setFile (s : Shared α) (text : List (Option α)) : File → Shared α
  | .buffer => { s with buffer := some text }
  | .pending => { s with pending := some text }

/-- Adds to a file, which is created if it is missing. -/
def extend (s : Shared α) (f : File) (text : List (Option α)) : Shared α :=
  s.setFile (s.text f ++ text) f

/-- Writes a record to its tenant's database. -/
def write (s : Shared α) (now : Time) (r : AuditRecord) : Shared α :=
  { s with
    tenants := fun id =>
      if id = r.tenantId then Messgr.writeAuditRecord (s.tenants id) now r else s.tenants id }

end Shared

section
variable {α : Type} [RecordLines α]

/-- What one statement does. A loop starts a pass when the one before is over. -/
def exec (t : Nat) (s : Shared α) :
    (c : Stmt α) → Event → Option (Shared α × Except SmsSenderError c.Answer)
  | .newUuid, .uuid id => some (s, .ok id)
  | .now, .time now => some (s, .ok now)
  | .nonce, .nonce n => some (s, .ok n)
  | .isEnabled _, .flag b => some (s, .ok b)
  | .send _ _ _, .sent r => some (s, .ok r)
  | .getOrOpen _, .opened pepper => some (s, .ok (some pepper))
  | .getOrOpen _, .fails => some (s, .ok none)
  | .getOrCreateDek _ _, .dek plaintext => some (s, .ok (some plaintext))
  | .getOrCreateDek _ _, .fails => some (s, .ok none)
  | .writeAuditRecord r, .time now => some (s.write now r, .ok true)
  | .writeAuditRecord r, .lost now => some (s.write now r, .ok false)
  | .writeAuditRecord _, .fails => some (s, .ok false)
  | .openAppend e, .done => some (s.extend e.file [], .ok true)
  | .openAppend _, .fails => some (s, .ok false)
  | .writeLine e, .done => some (s.extend e.file (e.line.map some), .ok true)
  | .writeLine e, .cut written =>
    some (s.extend e.file ((e.line.map some).take written), .ok false)
  | .writeEnd e, .done => some (s.extend e.file [none], .ok true)
  | .writeEnd _, .fails => some (s, .ok false)
  | .syncAll e, .done =>
    some ({ s with appended := (e.file, e.recordId) :: s.appended }, .ok true)
  | .syncAll _, .fails => some (s, .ok false)
  | .read f, .done =>
    if s.draining.any (·.2 = f) then none
    else
      match s.file f with
      | none => some (s, .ok none)
      | some text => some ({ s with draining := (t, f) :: s.draining }, .ok (some text))
  | .rewrite f text, .done =>
    some ({ s.setFile text f with draining := s.draining.filter (· ≠ (t, f)) }, .ok ())
  | _, _ => none

/-- A request, or one pass of a drain loop. -/
inductive Call
  | sendOtp (producer : ProducerContext) (body : SendOtpRequest)
  | drainBuffer
  | drainPending
deriving DecidableEq

variable (α) in
/-- The requests and the two drain loops of a process. Source: `src/bin/sms_sender.rs`, `main`. -/
def system [HmacSha256] [Aes256Gcm] :
    Sys (Shared α) Call Event Empty (@Stmt.Answer α) SmsSenderError (Option Uuid) where
  body
    | .sendOtp producer body => do return some (← Program.sendOtp producer body)
    | .drainBuffer => do
      Program.drainBuffer
      return none
    | .drainPending => do
      Program.drainPending
      return none
  start _ _ s := some s
  exec t _ c e s := exec t s c e
  env x _ := nomatch x

variable (α) in
/-- The state of the process. -/
abbrev State := Pool (Shared α) Call (@Stmt.Answer α) SmsSenderError (Option Uuid)

/-- One step of it. -/
abbrev Move := Sys.Act Call Event Empty

end

end Messgr.SmsSender
