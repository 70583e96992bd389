import Messgr.Dispatcher.Repo
import Messgr.Ingest.Repo

/-!
# One pass over a claimed row

`try_process` (`src/dispatcher/worker.rs`) is a chain of gates with a database read, a provider call
or a write between any two of them, and other tasks may run at each of these points. So a pass is a
machine: `Stage` says what it does next, and `tryProcess` does that one thing against the database
of the moment (`tryProcess_cases`). What the code does not decide is the step's `Env`. The bounded
writes of `src/dispatcher/drain.rs`, `write_expired` and `write_discarded`, are stages of the same
machine.
-/

namespace Messgr

/-! ## The provider -/

/-- Source: `src/sender/mod.rs`. -/
structure SendOutcome where
  providerRef : String
  providerStatus : String
deriving DecidableEq

/-- Source: `mod.rs`. -/
inductive SenderError
  | http
  | provider (status : Nat) (body : String)
deriving DecidableEq

/-- Source: `SenderError::is_retryable`. -/
def SenderError.isRetryable : SenderError → Bool
  | .http => true
  | .provider status _ => status ≥ 500

/-- Source: `provider_status_of`. -/
def providerStatusOf : SenderError → Option String
  | .provider status _ => some (toString status)
  | .http => none

/-! ## Retries -/

/-- Source: `CLAIM_BATCH_SIZE`. -/
def claimBatchSize : Nat := 20

/-- One millisecond of a `Time`. -/
def millisecond : Time := 1000

/-- Source: `LEASE_DURATION`, two minutes. -/
def leaseDuration : Time := 2 * 60 * 1000 * millisecond

/-- Source: `MAX_SEND_ATTEMPTS`. -/
def maxSendAttempts : Nat := 8

/-- Source: `MAX_WRITE_TERMINAL_ATTEMPTS`. -/
def maxWriteTerminalAttempts : Nat := 5

/-- The delay before a retry, with the jitter that was drawn. Source: `backoff_delay`,
`BACKOFF_BASE`, `BACKOFF_MULTIPLIER`, `BACKOFF_CAP`. -/
def backoffDelay (attempts jitter : Nat) : Time :=
  -- no attempts make an exponent of -1, which as a `u32` saturates the power
  let delay := if attempts = 0 then 30 * 60 * 1000
    else min (30000 * Nat.pow 2 (min (attempts - 1) 6)) (30 * 60 * 1000)
  (delay + min jitter (max (delay / 2) 1) : Nat) * millisecond

/-! ## Stages -/

/-- Why a pass failed. -/
inductive DispatchError
  | database (e : SqlError)
  | dek
  | encryption
  | invalidUtf8
  | missingRequest (commsRequestId : Uuid)
  | missingPayload (commsRequestId : Uuid)
deriving DecidableEq

/-- The writes that a drain or a discard retries a bounded number of times. -/
inductive BoundedWrite
  | expired
  | discarded
deriving DecidableEq

/-- The status a bounded write writes. -/
def BoundedWrite.status : BoundedWrite → Status
  | .expired => .expired
  | .discarded => .discarded

/-- What a task does next with a row it claimed: the gates of `try_process`, the provider call and
its answer, the write that ends the pass, or a bounded write at its attempt. -/
inductive Stage
  | expiry
  | suppression
  | verification
  | unverified
  | consent
  | quota
  | quietHours
  | ciphertexts
  | decrypt (destination : Bytes) (payload : Option Bytes)
  | cancellation
  | send
  | sending
  | terminal (status : Status) (providerRef providerStatus : Option String)
  | reschedule (nextAttemptAt : Time)
  | bounded (write : BoundedWrite) (attempt : Nat)
deriving DecidableEq

/-- Past the last look at `cancelled_at`: only a crash keeps the pass from calling the provider, or
from writing that it was called with success. -/
def Stage.committed : Stage → Bool
  | .send | .sending | .terminal .sent _ _ => true
  | _ => false

/-- The status that the stage writes. -/
def Stage.writes : Stage → Option Status
  | .terminal status _ _ => some status
  | .bounded write _ => some write.status
  | _ => none

/-! ## One step -/

/-- Source: `src/producer_quota/tracker.rs`. -/
inductive QuotaDecision
  | admitted
  | softBreach
  | defer (nextAttemptAt : Time)
deriving DecidableEq

/-- How a statement ends: it took effect, it did not, or it did and the reply was lost on the way
back. The last two are one `sqlx::Error` to the caller. -/
inductive Reply
  | ok
  | failed
  | lost
deriving DecidableEq

/-- What a step finds outside the code: the process's clock and the database's, how its statement
ends, the quota's and the quiet hours' verdict, the result of the DEK lookup and the decryptions,
the provider's answer, the jitter drawn and the rows a claim picks. -/
structure Env where
  clock : Time := 0
  now : Time := 0
  reply : Reply := .ok
  quota : QuotaDecision := .admitted
  window : Option Time := none
  unsealed : Except DispatchError Unit := .ok ()
  provider : Except SenderError SendOutcome := .ok ⟨"", ""⟩
  jitter : Nat := 0
  pick : Pick := .nothing

/-- The tenant's settings that a dispatcher loads at its start. Source: `DispatcherContext`;
`src/bin/dispatcher.rs`, `main`. -/
structure Config where
  channels : List String
  releaseRate : Nat
  enforceVerification : Bool
  hasQuietHoursPolicy : Bool
deriving DecidableEq

/-- What a step of a pass leads to. The result of a pass is logged and dropped (`process_one`). -/
inductive Next
  | goto (stage : Stage)
  | ended (result : Except DispatchError Unit)

/-- The error of a statement that failed. -/
def Next.databaseError : Next := .ended (.error (.database .failed))

/-- A read, and where its value leads. -/
def Next.read {α : Type*} (reply : Reply) (value : α) (k : α → Next) : Next :=
  match reply with
  | .ok => k value
  | _ => .databaseError

/-- A write that ends the pass. -/
def Next.write (reply : Reply) (db db' : TenantDb) : Next × TenantDb :=
  match reply with
  | .ok => (.ended (.ok ()), db')
  | .failed => (.databaseError, db)
  | .lost => (.databaseError, db')

/-- One step of a pass over `row`: what it does at `stage`. Source: `worker.rs`,
`try_process`; `drain.rs`, `write_expired`, `write_discarded`. -/
def tryProcess (cfg : Config) (db : TenantDb) (row : OutboxRow) (env : Env) :
    Stage → Next × TenantDb
  | .expiry =>
    if row.expiresAt.any (· ≤ env.clock) then (.goto (.terminal .expired none none), db)
    else (.goto .suppression, db)
  | .suppression =>
    (.read env.reply (isSuppressed db env.now row.createdAt row.commsRequestId) fun suppressed =>
      if suppressed then .goto (.terminal .suppressedList none none) else .goto .verification, db)
  | .verification =>
    if row.msgClass = .transactional ∨ row.msgClass = .marketing then
      (.read env.reply (loadVerifiedAt db row.addressId) fun verifiedAt =>
        if verifiedAt.isSome then .goto .consent
        else if cfg.enforceVerification then .goto (.terminal .unverifiedAddress none none)
        else .goto .unverified, db)
    else (.goto .consent, db)
  | .unverified =>
    let db' := recordEvent db env.clock row.commsRequestId row.customerId .unverifiedAddress
    match env.reply with
    | .ok => (.goto .consent, db')
    | .failed => (.databaseError, db)
    | .lost => (.databaseError, db')
  | .consent =>
    if row.msgClass = .marketing then
      (.read env.reply (isConsented db row.addressId row.msgClass) fun consented =>
        if consented then .goto .quota else .goto (.terminal .suppressedConsent none none), db)
    else (.goto .quota, db)
  | .quota =>
    match env.quota with
    | .admitted | .softBreach => (.goto .quietHours, db)
    | .defer nextAttemptAt => (.goto (.reschedule nextAttemptAt), db)
  | .quietHours =>
    if cfg.hasQuietHoursPolicy then
      -- the zone read and the policy decide `resolve_reschedule`, whose verdict is `env.window`
      (.read env.reply (loadCustomerTimezone db row.customerId) fun _ =>
        match env.window with
        | some nextAttemptAt => .goto (.reschedule nextAttemptAt)
        | none => .goto .ciphertexts, db)
    else (.goto .ciphertexts, db)
  | .ciphertexts =>
    (.read env.reply (loadCiphertexts db row.createdAt row.commsRequestId) fun found =>
      match found with
      | some (destination, payload) => .goto (.decrypt destination payload)
      | none => .ended (.error (.missingRequest row.commsRequestId)), db)
  | .decrypt _ payload =>
    match env.unsealed with
    | .error e => (.ended (.error e), db)
    | .ok () =>
      if payload.isSome then (.goto .cancellation, db)
      else (.ended (.error (.missingPayload row.commsRequestId)), db)
  | .cancellation =>
    (.read env.reply (isCancelled db row.commsRequestId) fun cancelled =>
      match cancelled with
      | none => .ended (.error (.database .rowNotFound))
      | some true => .goto (.terminal .cancelled none none)
      | some false => .goto .send, db)
  | .send => (.goto .sending, db)
  | .sending =>
    match env.provider with
    | .ok outcome =>
      (.goto (.terminal .sent (some outcome.providerRef) (some outcome.providerStatus)), db)
    | .error e =>
      if e.isRetryable && row.attempts < maxSendAttempts then
        (.goto (.reschedule (env.clock + backoffDelay row.attempts env.jitter)), db)
      else (.goto (.terminal .failed none (providerStatusOf e)), db)
  | .terminal status providerRef providerStatus =>
    Next.write env.reply db (writeTerminal db env.clock row.createdAt row.commsRequestId
      row.customerId status providerRef providerStatus status)
  | .reschedule nextAttemptAt =>
    Next.write env.reply db (rescheduleRetry db row.commsRequestId nextAttemptAt)
  | .bounded write attempt =>
    let db' := writeTerminal db env.clock row.createdAt row.commsRequestId row.customerId
      write.status none none write.status
    let failed : Next :=
      if attempt < maxWriteTerminalAttempts then .goto (.bounded write (attempt + 1))
      else .databaseError
    match env.reply with
    | .ok => (.ended (.ok ()), db')
    | .failed => (failed, db)
    | .lost => (failed, db')

/-! ## What a step can do -/

section
variable {cfg : Config} {db db' : TenantDb} {row : OutboxRow} {env : Env}
  {stage : Stage} {next : Next}

/-- The step of a pass by what it did to the database: nothing, the event of the verification gate,
a terminal write of the row or its return to the queue. -/
inductive PassStep (db : TenantDb) (row : OutboxRow) (env : Env) :
    Stage → Next → TenantDb → Prop
  | goto {stage stage' : Stage} : PassStep db row env stage (.goto stage') db
  | gaveUp {stage : Stage} {e : DispatchError} : PassStep db row env stage (.ended (.error e)) db
  | recorded {next : Next} (result : next ≠ .ended (.ok ())) :
      PassStep db row env .unverified next
        (recordEvent db env.clock row.commsRequestId row.customerId .unverifiedAddress)
  | wrote {status : Status} {providerRef providerStatus : Option String}
      {result : Except DispatchError Unit} :
      PassStep db row env (.terminal status providerRef providerStatus) (.ended result)
        (writeTerminal db env.clock row.createdAt row.commsRequestId row.customerId status
          providerRef providerStatus status)
  | rescheduled {nextAttemptAt : Time} {result : Except DispatchError Unit} :
      PassStep db row env (.reschedule nextAttemptAt) (.ended result)
        (rescheduleRetry db row.commsRequestId nextAttemptAt)
  | bounded {write : BoundedWrite} {attempt : Nat} {next : Next} :
      PassStep db row env (.bounded write attempt) next
        (writeTerminal db env.clock row.createdAt row.commsRequestId row.customerId write.status
          none none write.status)

theorem passStep_read {α : Type*} {reply : Reply} {value : α} {k : α → Next}
    (hk : ∀ v, PassStep db row env stage (k v) db) :
    PassStep db row env stage (.read reply value k) db := by
  cases reply with
  | ok => exact hk value
  | failed => exact .gaveUp
  | lost => exact .gaveUp

/-- Every step of a pass is one of these. -/
theorem tryProcess_passStep :
    PassStep db row env stage (tryProcess cfg db row env stage).1
      (tryProcess cfg db row env stage).2 := by
  cases stage with
  | expiry => simp only [tryProcess]; split <;> exact .goto
  | suppression =>
    simp only [tryProcess]
    refine passStep_read fun v => ?_
    split <;> exact .goto
  | verification | consent | quietHours =>
    simp only [tryProcess]
    split
    · dsimp only
      refine passStep_read fun v => ?_
      (repeat' split) <;> exact .goto
    · exact .goto
  | unverified =>
    simp only [tryProcess]
    cases env.reply with
    | ok => exact .recorded Next.noConfusion
    | failed => exact .gaveUp
    | lost => exact .recorded (by simp [Next.databaseError])
  | quota => simp only [tryProcess]; cases env.quota <;> exact .goto
  | ciphertexts =>
    simp only [tryProcess]
    refine passStep_read fun v => ?_
    cases v with
    | none => exact .gaveUp
    | some p => exact .goto
  | decrypt destination payload =>
    simp only [tryProcess]
    cases env.unsealed with
    | error e => exact .gaveUp
    | ok u =>
      cases payload with
      | none => exact .gaveUp
      | some bytes => exact .goto
  | cancellation =>
    simp only [tryProcess]
    refine passStep_read fun v => ?_
    match v with
    | none => exact .gaveUp
    | some true | some false => exact .goto
  | send => exact .goto
  | sending =>
    simp only [tryProcess]
    cases env.provider with
    | ok outcome => exact .goto
    | error e => dsimp only; split_ifs <;> exact .goto
  | terminal status providerRef providerStatus =>
    simp only [tryProcess, Next.write]
    cases env.reply with
    | ok | lost => exact .wrote
    | failed => exact .gaveUp
  | reschedule nextAttemptAt =>
    simp only [tryProcess, Next.write]
    cases env.reply with
    | ok | lost => exact .rescheduled
    | failed => exact .gaveUp
  | bounded write attempt =>
    simp only [tryProcess]
    cases env.reply with
    | ok => exact .bounded
    | failed =>
      dsimp only
      split_ifs
      · exact .goto
      · exact .gaveUp
    | lost => exact .bounded

/-- A statement that failed has changed nothing. -/
theorem tryProcess_of_failed (h : env.reply = .failed) :
    (tryProcess cfg db row env stage).2 = db := by
  cases stage with
  | expiry | verification | consent | quietHours => simp only [tryProcess]; split <;> rfl
  | quota => simp only [tryProcess]; cases env.quota <;> rfl
  | decrypt destination payload =>
    simp only [tryProcess]
    cases env.unsealed with
    | error e => rfl
    | ok u => cases payload <;> rfl
  | sending =>
    simp only [tryProcess]
    cases env.provider with
    | error e => dsimp only; split <;> rfl
    | ok outcome => rfl
  | suppression | ciphertexts | cancellation | send => rfl
  | unverified | terminal | reschedule | bounded => simp only [tryProcess, Next.write, h]

/-- A pass comes to the decryption with what it read of its request. -/
theorem loadCiphertexts_of_goto {destination : Bytes} {payload : Option Bytes}
    (h : (tryProcess cfg db row env stage).1 = .goto (.decrypt destination payload)) :
    loadCiphertexts db row.createdAt row.commsRequestId = some (destination, payload) := by
  cases stage <;> simp only [tryProcess, Next.read, Next.write, Next.databaseError] at h <;> grind

/-- A pass commits to the provider call only where it reads that the row is not cancelled. -/
theorem isCancelled_of_goto {stage' : Stage}
    (h : (tryProcess cfg db row env stage).1 = .goto stage') (hc : stage'.committed = true) :
    stage.committed = true ∨ isCancelled db row.commsRequestId = some false := by
  cases stage <;>
    simp only [tryProcess, Next.read, Next.write, Next.databaseError] at h <;>
    grind [Stage.committed]

/-- Nothing fails at a stage that would end the pass: a read answers, the DEK and the decryptions
are there, the last write takes effect, or a bounded write has another attempt left. -/
def Env.faultless (env : Env) : Stage → Bool
  | .expiry | .quota | .send | .sending => true
  | .decrypt _ _ => env.unsealed.isOk
  | .terminal _ _ _ | .reschedule _ => env.reply ≠ .failed
  | .bounded _ attempt => attempt < maxWriteTerminalAttempts || env.reply ≠ .failed
  | _ => env.reply = .ok

/-- A write that ends the pass with an error and took effect lost its reply. -/
theorem Next.write_of_error {reply : Reply} {e : DispatchError}
    (h : (Next.write reply db db').1 = .ended (.error e)) (hr : reply ≠ .failed) :
    (Next.write reply db db').2 = db' := by
  cases reply with
  | ok => simp [Next.write] at h
  | failed => exact absurd rfl hr
  | lost => rfl

/-- The errors of a pass without faults over a leased row: no request in the ledger, or no payload.
-/
theorem error_of_faultless {e : DispatchError} (hf : env.faultless stage = true)
    (h : (tryProcess cfg db row env stage).1 = .ended (.error e))
    (hdb : (tryProcess cfg db row env stage).2.outbox = db.outbox)
    {r : OutboxRow} (hr : r ∈ db.outbox) (hid : r.commsRequestId = row.commsRequestId)
    (hl : r.leasedUntil ≠ none) :
    loadCiphertexts db row.createdAt row.commsRequestId = none ∨
      ∃ destination, stage = .decrypt destination none := by
  cases stage with
  | terminal status providerRef providerStatus =>
    -- the write took the row out
    exfalso
    have hw := Next.write_of_error h (by simpa [Env.faultless] using hf)
    rw [← hdb, tryProcess, hw] at hr
    exact (mem_writeTerminal.1 hr).2 hid
  | reschedule nextAttemptAt =>
    -- the write took the lease away
    exfalso
    have hw := Next.write_of_error h (by simpa [Env.faultless] using hf)
    rw [← hdb, tryProcess, hw] at hr
    rcases mem_rescheduleRetry.1 hr with ⟨-, hne⟩ | ⟨r0, -, -, hupd⟩
    · exact hne hid
    · exact hl (by rw [hupd])
  | bounded write attempt =>
    -- the write of a lost reply took the row out
    exfalso
    simp only [tryProcess, Next.databaseError] at h hdb
    cases hreply : env.reply with
    | ok => simp [hreply] at h
    | failed =>
      have hlt : attempt < maxWriteTerminalAttempts := by simpa [Env.faultless, hreply] using hf
      simp [hreply, hlt] at h
    | lost =>
      rw [hreply] at hdb
      exact (mem_writeTerminal.1 (hdb.symm ▸ hr)).2 hid
  | cancellation =>
    exfalso
    have hc := hid ▸ isCancelled_of_mem hr
    have hreply : env.reply = .ok := by simpa [Env.faultless] using hf
    simp only [tryProcess, Next.read, hreply, hc] at h
    cases hb : r.cancelledAt.isSome <;> simp [hb] at h
  | decrypt destination payload =>
    simp only [tryProcess, Env.faultless] at h hf
    cases hu : env.unsealed with
    | error e => rw [hu] at hf; cases hf
    | ok u =>
      cases payload with
      | none => exact .inr ⟨destination, rfl⟩
      | some bytes => simp [hu] at h
  | _ =>
    simp only [tryProcess, Next.read, Env.faultless, decide_eq_true_eq] at h hf
    grind

end

end Messgr
