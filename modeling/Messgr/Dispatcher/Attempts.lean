import Messgr.Dispatcher.Queue

/-!
# The attempts of a row

Every claim of a row counts its `attempts` up, a `smallint`, whatever the pass over it comes to. A
claim computes no value beyond the column while no row goes back to the queue with the largest
one (`attempts_fit_smallint`). Nothing sees to that: a row can be deferred any number of times
(`attempts_overflow`).
-/

namespace Messgr

/-- The start of a run with rows that were never claimed. -/
structure World.Unclaimed (w : World) : Prop extends w.Initial where
  attempts : ∀ r ∈ w.db.outbox, r.attempts = 0
  free : ∀ r ∈ w.db.outbox, r.leasedUntil = none

/-- The rows that the act gives back to the queue have the property. -/
def World.requeuesOnly (w : World) (p : OutboxRow → Bool) (a : Act) : Bool :=
  w.db.outbox.rows.all fun r => !w.requeues a r || p r

theorem World.of_requeuesOnly {w : World} {p : OutboxRow → Bool} {a : Act} {r : OutboxRow}
    (h : w.requeuesOnly p a = true) (hr : r ∈ w.db.outbox) (hback : w.requeues a r = true) :
    p r = true := by
  have := List.all_eq_true.1 h r hr
  rwa [hback, Bool.not_true, Bool.false_or] at this

theorem World.unclaimed_empty : World.empty.Unclaimed :=
  ⟨World.initial_empty, fun r hr => absurd hr (Table.not_mem_empty r),
    fun r hr => absurd hr (Table.not_mem_empty r)⟩

/-! ## The column -/

/-- The largest value of the column `attempts`. Source:
`migrations/tenant/0004_ledger_outbox_schema.sql`, `outbox`. -/
def smallintMax : Nat := 32767

/-- The condition: no row goes back to the queue with the largest value. -/
def requeuesBelowMax (w : World) (a : Act) : Bool :=
  w.requeuesOnly (fun r => r.attempts < smallintMax) a

/-- The attempts fit the column, with room for one more claim where there can be one. -/
structure TenantDb.AttemptsFit (db : TenantDb) : Prop where
  le : ∀ r ∈ db.outbox, r.attempts ≤ smallintMax
  lt : ∀ r ∈ db.outbox, r.leasedUntil = none → r.attempts < smallintMax

section
variable {w w' : World} {a : Act}

/-- Every step that meets the condition keeps the room. -/
theorem attemptsFit_step (h : w.db.AttemptsFit) (hq : QueueStep w a w')
    (hc : requeuesBelowMax w a = true) : w'.db.AttemptsFit := by
  constructor
  · intro r' hr'
    cases hq.rowStep hr' with
    | kept old => exact h.le r' old
    | inserted fresh => exact Nat.zero_le _
    | @cancelled r _ old => exact h.le r old
    | @claimed r _ old free => exact h.lt r old free
    | @requeued r _ old back => exact h.le r old
  · intro r' hr' hfree
    cases hq.rowStep hr' with
    | kept old => exact h.lt r' old hfree
    | inserted fresh => exact Nat.zero_lt_succ _
    | @cancelled r _ old => exact h.lt r old hfree
    | claimed old free => cases hfree
    | @requeued r _ old back =>
      exact of_decide_eq_true (World.of_requeuesOnly (r := r) hc old back)

/-- A claim of rows without a lease stays within the column. -/
theorem TenantDb.AttemptsFit.claimed {db db' : TenantDb} {eligible : OutboxRow → Bool}
    {leasedUntil : Time} {ids : List Uuid} {rows : OutboxRows} (h : db.AttemptsFit)
    (hu : ∀ r, eligible r = true → r.leasedUntil = none)
    (hc : Claimed db eligible leasedUntil ids rows db') {r : OutboxRow} (hr : r ∈ rows) :
    r.attempts ≤ smallintMax := by
  obtain ⟨r0, hr0, he, rfl⟩ := hc.eligible_of_mem hr
  exact h.lt r0 hr0 (hu r0 he)

variable [UuidCrate]

/-- In every state of every run from rows that were never claimed, in which no row goes back to the
queue with the largest value, the rows that `claim` and `claim_for_scope` lease have attempts that a
`smallint` holds. -/
theorem attempts_fit_smallint {w0 : World} {as : List Act} (h0 : w0.Unclaimed)
    (h : Run.Steps World.step (requeuesBelowMax · ·) w0 as w) :
    (∀ now channel limit leasedUntil exclusion pick rows db',
      claim w.db now channel limit leasedUntil exclusion pick = some (rows, db') →
      ∀ r ∈ rows, r.attempts ≤ smallintMax) ∧
    ∀ now channel s limit leasedUntil exclusion pick rows db',
      claimForScope w.db now channel s limit leasedUntil exclusion pick = some (rows, db') →
      ∀ r ∈ rows, r.attempts ≤ smallintMax := by
  have hfit : w.db.AttemptsFit := by
    refine h.inv (I := fun w => w.db.AttemptsFit)
      (fun _ _ _ hc hs hi => attemptsFit_step hi (queueStep_of_step hs) hc) ⟨?_, ?_⟩
    · exact fun r hr => h0.attempts r hr ▸ Nat.zero_le _
    · exact fun r hr _ => h0.attempts r hr ▸ Nat.zero_lt_succ _
  constructor
  · intro now channel limit leasedUntil exclusion pick rows db' hclaim r hr
    exact hfit.claimed (fun r he => (claimEligible_iff.1 he).2.2.1) (claim_spec hclaim) hr
  · intro now channel s limit leasedUntil exclusion pick rows db' hclaim r hr
    exact hfit.claimed (fun r he => (claimForScopeEligible_iff.1 he).2.1)
      (claimForScope_spec hclaim) hr

end

/-! ### A row that is deferred for ever -/

/-- A marketing message. -/
def NewComms.marketing : NewComms := { NewComms.sample ⟨7⟩ "k" with msgClass := .marketing }

/-- Its address is verified and has consented. -/
def GateTables.consented : GateTables :=
  ⟨∅, (∅ : Table ConsentRow _).upsert ⟨⟨3⟩, .marketing, true⟩,
    (∅ : Table AddressRow _).upsert ⟨⟨3⟩, some 0⟩, ∅⟩

/-- A dispatcher leads, and the message is accepted. -/
def acceptedMarketing : List Act :=
  [Act.startDispatcher .sample, .openContext, .setGates .consented] ++ Act.elect 0 ++
    Act.accept 1 .marketing ++ [Act.task 0 {}]

/-- The message is claimed, comes to the quota gate and is deferred. -/
def deferral : List Act :=
  Act.claimRow 0 ⟨7⟩ ++ List.replicate 4 (Act.task 0 {}) ++
    [Act.task 0 { quota := .defer 0 }, .task 0 {}, .task 0 {}]

/-- The state after `n` deferrals. -/
def World.deferred (n : Nat) (log : List Obs) : World where
  db := { TenantDb.empty with
    outbox := ⟨[{ NewComms.marketing.outboxRow 0 with attempts := n }], List.nodup_singleton _⟩
    commsRequest := ⟨[NewComms.marketing.request 0], List.nodup_singleton _⟩
    idempotency := ⟨[NewComms.marketing.idempotencyRow 0], List.nodup_singleton _⟩
    gates := .consented }
  platform := ∅
  tenantId := ⟨0⟩
  lock := some 0
  hosts := [{ Host.newDispatcher .sample with dispatcher := some ⟨.sample, .leading, ∅⟩ },
    .newContext]
  tasks := [⟨0, .channelLoop "sms", .ready⟩]
  admitted := [.marketing]
  cancelling := []
  log := log

theorem exec_acceptedMarketing :
    ∃ log, Run.exec (@World.step .sample) .empty acceptedMarketing = some (.deferred 0 log) :=
  ⟨_, rfl⟩

theorem exec_deferral (n : Nat) (log : List Obs) :
    ∃ log', Run.exec (@World.step .sample) (.deferred n log) deferral =
      some (.deferred (n + 1) log') :=
  ⟨_, rfl⟩

theorem exists_deferred (n : Nat) :
    ∃ as log, Run.Steps (@World.step .sample) Run.Any .empty as (.deferred n log) := by
  induction n with
  | zero =>
    obtain ⟨log, h⟩ := exec_acceptedMarketing
    exact ⟨_, log, .of_exec h⟩
  | succ n ih =>
    obtain ⟨as, log, h⟩ := ih
    obtain ⟨log', h'⟩ := exec_deferral n log
    exact ⟨_, log', h.append (.of_exec h')⟩

theorem claim_deferred (n : Nat) (log : List Obs) :
    ∃ rows db', claim (World.deferred n log).db 0 "sms" claimBatchSize leaseDuration .default
        (.one ⟨7⟩) = some (rows, db') ∧ ∃ r ∈ rows, r.attempts = n + 1 :=
  ⟨_, _, rfl, _, .head _, rfl⟩

/-- Without the condition a claim computes a value that the column does not hold: the quota has
deferred the message 32767 times. -/
theorem attempts_overflow :
    ∃ (as : List Act) (w : World) (rows : OutboxRows) (db' : TenantDb),
      Run.Steps (@World.step .sample) Run.Any .empty as w ∧
      claim w.db 0 "sms" claimBatchSize leaseDuration .default (.one ⟨7⟩) = some (rows, db') ∧
      ∃ r ∈ rows, ¬ r.attempts ≤ smallintMax := by
  obtain ⟨as, log, h⟩ := exists_deferred smallintMax
  obtain ⟨rows, db', hclaim, r, hr, hn⟩ := claim_deferred smallintMax log
  exact ⟨as, _, rows, db', h, hclaim, r, hr, by omega⟩

/-- A message that was deferred once is claimed again. -/
theorem attempts_fit_smallint_deferral :
    ∃ (w : World) (rows : OutboxRows) (db' : TenantDb),
      Run.Steps (@World.step .sample) (requeuesBelowMax · ·) .empty
        (acceptedMarketing ++ deferral) w ∧
      claim w.db 0 "sms" claimBatchSize leaseDuration .default (.one ⟨7⟩) = some (rows, db') ∧
      rows.rows.length = 1 ∧ ∀ r ∈ rows, r.attempts ≤ smallintMax := by
  obtain ⟨w, h, hp⟩ := Run.Steps.exists_of_checked (@World.step .sample) requeuesBelowMax .empty
    (acceptedMarketing ++ deferral)
    (fun w => (claim w.db 0 "sms" claimBatchSize leaseDuration .default (.one ⟨7⟩)).any
      fun c => c.1.rows.length = 1) (by decide +kernel)
  obtain ⟨⟨rows, db'⟩, hclaim, hlen⟩ := (Option.any_eq_true _ _).1 hp
  exact ⟨w, rows, db', h, hclaim, of_decide_eq_true hlen,
    (@attempts_fit_smallint _ .sample _ _ World.unclaimed_empty h).1 _ _ _ _ _ _ _ _ hclaim⟩

end Messgr
