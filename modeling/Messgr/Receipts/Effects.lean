import Messgr.Receipts.Jobs

/-!
# What a step does to the tables of receipts

`Change` lists what a statement of a run or a move of another service does to the database and the
holding tables, and `changes_of_step` says that every step is one of these, perhaps with the note
that a statement failed. Whatever is proved about all runs is proved by its cases.
-/

namespace Messgr

open List Option Table

/-! ## What stays in a tenant's database -/

/-- Events stay, and requests stay under their key with their destination. -/
structure TenantDb.Keeps (db db' : TenantDb) : Prop where
  events : ∀ e ∈ db.commsEvent, e ∈ db'.commsEvent
  requests : ∀ r ∈ db.commsRequest, ∃ r' ∈ db'.commsRequest,
    r'.key = r.key ∧ r'.destinationHmac = r.destinationHmac

/-- Rows are only added to the ledger, and the gates are as they were. -/
structure TenantDb.Extends (db db' : TenantDb) : Prop where
  events : ∀ e ∈ db.commsEvent, e ∈ db'.commsEvent
  requests : ∀ r ∈ db.commsRequest, r ∈ db'.commsRequest
  gates : db'.gates = db.gates

namespace TenantDb

variable {db db1 db2 : TenantDb}

theorem Keeps.refl (db : TenantDb) : db.Keeps db := ⟨fun _ h => h, fun r h => ⟨r, h, rfl, rfl⟩⟩

theorem Keeps.trans (h1 : db.Keeps db1) (h2 : db1.Keeps db2) : db.Keeps db2 := by
  refine ⟨fun e he => h2.events e (h1.events e he), fun r hr => ?_⟩
  obtain ⟨r1, hr1, hk1, hd1⟩ := h1.requests r hr
  obtain ⟨r2, hr2, hk2, hd2⟩ := h2.requests r1 hr1
  exact ⟨r2, hr2, hk2.trans hk1, hd2.trans hd1⟩

theorem Extends.keeps (h : db.Extends db1) : db.Keeps db1 :=
  ⟨h.events, fun r hr => ⟨r, h.requests r hr, rfl, rfl⟩⟩

theorem mem_insertEvent_of_mem {e e' : CommsEvent} (h : e' ∈ db.commsEvent) :
    e' ∈ (db.insertEvent e).commsEvent := by
  unfold TenantDb.insertEvent
  split
  · next hi => exact ((insert?_some hi).2 e').2 (.inl h)
  · exact h

/-- After an event is inserted there is one with its key. -/
theorem exists_insertEvent (db : TenantDb) (e : CommsEvent) :
    ∃ e' ∈ (db.insertEvent e).commsEvent, e'.key = e.key := by
  unfold TenantDb.insertEvent
  split
  · next hi => exact ⟨e, ((insert?_some hi).2 e).2 (.inr rfl), rfl⟩
  · next hi => exact insert?_none hi

/-- An event whose key is there is not inserted. -/
theorem insertEvent_of_exists {e e' : CommsEvent} (he : e' ∈ db.commsEvent) (hk : e'.key = e.key) :
    db.insertEvent e = db := by
  unfold TenantDb.insertEvent
  split
  · next hi => exact absurd hk ((insert?_some hi).1 e' he)
  · rfl

theorem Extends.insertEvent (db : TenantDb) (e : CommsEvent) : db.Extends (db.insertEvent e) where
  events _ h := mem_insertEvent_of_mem h
  requests r hr := by rwa [insertEvent_commsRequest]
  gates := by unfold TenantDb.insertEvent; split <;> rfl

theorem Keeps.setFinalStatus (db : TenantDb) (createdAt : Time) (id : Uuid) (status : Status)
    (now : Time) : db.Keeps (db.setFinalStatus createdAt id status now) := by
  refine ⟨fun e he => he, fun r hr => ?_⟩
  by_cases hk : r.createdAt = createdAt ∧ r.id = id
  · exact ⟨_, mem_setFinalStatus.2 (.inr ⟨r, hr, hk, rfl⟩), rfl, rfl⟩
  · exact ⟨r, mem_setFinalStatus.2 (.inl ⟨hr, hk⟩), rfl, rfl⟩

theorem Keeps.writeTerminal (db : TenantDb) (now createdAt : Time) (id customerId : Uuid)
    (eventType : Status) (providerRef providerStatus : Option String) (status : Status) :
    db.Keeps (writeTerminal db now createdAt id customerId eventType providerRef providerStatus
      status) := by
  have h := (Extends.insertEvent db ⟨id, customerId, now, eventType, providerRef.getD "",
    providerStatus, none⟩).keeps.trans (.setFinalStatus _ createdAt id status now)
  exact ⟨h.events, h.requests⟩

/-- A promotion keeps what is there. -/
theorem Keeps.promoteMatch (db : TenantDb) (now : Time) (m : Match) (receipt : Receipt)
    (ciphertext : Option Bytes) : db.Keeps (promoteMatch db now m receipt ciphertext) := by
  have hsupp : ∀ (db' : TenantDb) reason, db.Keeps db' →
      db.Keeps (db'.suppress m.destinationHmac reason now) := fun _ _ h => ⟨h.events, h.requests⟩
  unfold Messgr.promoteMatch insertCommsEvent
  split <;> split
  · exact hsupp _ _ ((Extends.insertEvent _ _).keeps.trans (Keeps.setFinalStatus _ _ _ _ _))
  · exact (Extends.insertEvent _ _).keeps.trans (Keeps.setFinalStatus _ _ _ _ _)
  · exact hsupp _ _ (Extends.insertEvent _ _).keeps
  · exact (Extends.insertEvent _ _).keeps

/-- The events after a promotion. -/
theorem promoteMatch_commsEvent (db : TenantDb) (now : Time) (m : Match) (receipt : Receipt)
    (ciphertext : Option Bytes) :
    (Messgr.promoteMatch db now m receipt ciphertext).commsEvent = (db.insertEvent
      ⟨m.commsRequestId, m.customerId, receipt.occurredAt, receipt.eventType, receipt.providerRef,
        receipt.providerStatus, ciphertext⟩).commsEvent := by
  unfold Messgr.promoteMatch insertCommsEvent
  split <;> split <;> rfl

/-- The suppression list after a promotion. -/
theorem promoteMatch_suppression (db : TenantDb) (now : Time) (m : Match) (receipt : Receipt)
    (ciphertext : Option Bytes) :
    (Messgr.promoteMatch db now m receipt ciphertext).gates.suppression =
      match autoSuppressReason receipt.eventType with
      | some reason => (db.suppress m.destinationHmac reason now).gates.suppression
      | none => db.gates.suppression := by
  have hgates : ∀ e, (db.insertEvent e).gates = db.gates := fun e =>
    (Extends.insertEvent db e).gates
  unfold Messgr.promoteMatch insertCommsEvent
  cases autoSuppressReason receipt.eventType with
  | none => split <;> simp only [TenantDb.setFinalStatus, hgates]
  | some reason => split <;> simp only [TenantDb.suppress, TenantDb.setFinalStatus, hgates]

/-- So does a step of a pass, and it leaves the gates alone. -/
theorem keeps_tryProcess (cfg : Config) (db : TenantDb) (row : OutboxRow) (env : Env)
    (stage : Stage) : db.Keeps (tryProcess cfg db row env stage).2 ∧
      (tryProcess cfg db row env stage).2.gates = db.gates := by
  have hstep := @tryProcess_passStep cfg db row env stage
  revert hstep
  generalize (tryProcess cfg db row env stage).1 = next
  generalize (tryProcess cfg db row env stage).2 = db'
  intro hstep
  cases hstep with
  | goto | gaveUp => exact ⟨.refl _, rfl⟩
  | recorded => exact ⟨(Extends.insertEvent _ _).keeps, (Extends.insertEvent _ _).gates⟩
  | wrote | bounded => exact ⟨.writeTerminal _ _ _ _ _ _ _ _ _, (Extends.insertEvent _ _).gates⟩
  | rescheduled => exact ⟨⟨fun _ h => h, (Keeps.refl _).requests⟩, rfl⟩

theorem Extends.writeAuditRecord (db : TenantDb) (now : Time) (a : AuditRecord) :
    db.Extends (writeAuditRecord db now a) := by
  unfold Messgr.writeAuditRecord
  split
  · next commsRequest hi =>
    have h := Extends.insertEvent { db with commsRequest := commsRequest }
      ⟨a.commsRequestId, a.customerId, a.createdAt, a.finalStatus, a.providerRef,
        a.providerStatus, none⟩
    exact ⟨h.events, fun r hr => h.requests r (((insert?_some hi).2 r).2 (.inl hr)), h.gates⟩
  · exact .insertEvent _ _

theorem Extends.insertTransactional {now : Time} {c : NewComms} {outcome : InsertOutcome}
    (h : insertTransactional db now c = .ok (outcome, db1)) : db.Extends db1 := by
  unfold Messgr.insertTransactional at h
  split at h
  · split at h
    · cases h
      exact ⟨fun _ h => h, fun _ h => h, rfl⟩
    · cases h
  · split at h
    · next hr _ =>
      cases h
      exact ⟨fun _ h => h, fun r hm => ((insert?_some hr).2 r).2 (.inl hm), rfl⟩
    · cases h

end TenantDb

namespace Receipts

/-! ## Whose observation -/

/-- The run that an observation is about. -/
def Obs.run : Obs → Option Nat
  | .listed t _ | .matched t _ _ | .orphaned t _ | .missed t _ _ | .deleted t _ _
  | .agedOut t _ | .failed t _ => some t
  | .promoted x => some x.run
  | .accepted _ | .edited _ | .gate _ _ _ | .called _ | .wrote _ _ => none

/-- What is observed of a run. -/
def Inbox.own (s : Inbox) (t : Nat) : List Obs := s.log.filter (·.run = some t)

theorem mem_own {s : Inbox} {t : Nat} {o : Obs} : o ∈ s.own t ↔ o ∈ s.log ∧ o.run = some t := by
  rw [Inbox.own, mem_filter, decide_eq_true_eq]

/-! ## Changes -/

/-- What a change may be: which receipts are promoted or handed over, and whether a pass moves. -/
structure Allowed where
  promote : Promotion → Prop
  orphan : PendingReceipt → Prop
  pass : Prop

/-- What a statement of the run `u` or a move of another service does. -/
inductive Change (A : Allowed) (s : Inbox) : Option Nat → Inbox → Prop
  | same (u : Option Nat) : Change A s u s
  | listed (t : Nat) (ids : List Uuid) : Change A s (some t) (s.note (.listed t ids))
  | matched (t : Nat) (p : PendingReceipt) :
      Change A s (some t) (s.note (.matched t p (findMatch s.db p.providerRef)))
  | promoted (x : Promotion) (allowed : A.promote x) : Change A s (some x.run) (s.promote x)
  | orphaned {t : Nat} {row : StagingRow} {newId : Uuid} {s' : Inbox}
      (allowed : A.orphan row.toPendingReceipt) (done : s.toOrphan t row newId = some s') :
      Change A s (some t) s'
  | missed (t : Nat) (id : Uuid) : Change A s (some t) (s.countMiss t id)
  | deleted (t : Nat) (id : Uuid) (cap : Nat) : Change A s (some t) (s.deleteMissed t id cap)
  | agedOut (t : Nat) (id : Uuid) : Change A s (some t) (s.note (.agedOut t id))
  | stored {row : StagingRow} {s' : Inbox} (done : s.insertStaging row = some s') :
      Change A s none s'
  | suppressed (input : SuppressionRow) : Change A s none (s.upsertSuppression input)
  | retired (destinationHmac : Bytes) (now : Time) :
      Change A s none (s.retireNow destinationHmac now)
  | partitioned (partitions : List (Time × Time)) :
      Change A s none { s with partitions := partitions }
  | extended {db : TenantDb} (rows : s.db.Extends db) : Change A s none { s with db := db }
  | begun (cfg : Config) (row : OutboxRow) :
      Change A s none { s with passes := s.passes ++ [⟨cfg, row, .goto .expiry⟩] }
  | passed {i : Nat} {env : Env} {s' : Inbox} (allowed : A.pass) (done : s.pass i env = some s') :
      Change A s none s'

/-- A change, perhaps with the note that its statement failed. -/
def Changes (A : Allowed) (s : Inbox) (u : Option Nat) (s' : Inbox) : Prop :=
  ∃ s1, Change A s u s1 ∧ (s' = s1 ∨ ∃ t id, u = some t ∧ s' = s1.note (.failed t id))

/-- The promotion that a statement makes. -/
def Stmt.promotion (t : Nat) (e : Event) : Stmt → Option Promotion
  | .promote held x m ciphertext => some ⟨t, held, x, m, ciphertext, e.now⟩
  | _ => none

/-- The promotion that a step commits. -/
def promotion? (w : World) : Act → Option Promotion
  | .step t e =>
    match w.threads[t]? with
    | some ⟨_, .call c _⟩ =>
      (c.promotion t e).filter fun x => e.reply ≠ .failed && w.shared.covers x.receipt.occurredAt
    | _ => none
  | _ => none

/-- A step of the dispatcher. -/
def isPass : Act → Bool
  | .env (.pass _ _) => true
  | _ => false

/-- The run that a step is of. -/
def Act.run : Act → Option Nat
  | .step t _ => some t
  | _ => none

section
variable {s s' : Inbox} {t : Nat} {u : Option Nat} {e : Event} {A : Allowed}
variable {w w' : World} {i : Nat} {env : Env}

/-- A change without a failure. -/
theorem Change.changes (h : Change A s u s') : Changes A s u s' := ⟨s', h, .inl rfl⟩

theorem changes_failed (A : Allowed) (s : Inbox) (t : Nat) (id : Uuid) :
    Changes A s (some t) (s.note (.failed t id)) :=
  ⟨s, .same _, .inr ⟨t, id, rfl, rfl⟩⟩

/-- A write, by how it ends. -/
theorem changes_of_write {s1 : Inbox} {id : Uuid} {reply : Reply}
    {a : Except JobError Unit} (h1 : reply ≠ .failed → Change A s (some t) s1)
    (hx : s.write s1 t id reply = (s', a)) : Changes A s (some t) s' := by
  cases reply with
  | ok => cases hx; exact (h1 Reply.noConfusion).changes
  | failed => cases hx; exact changes_failed A s t id
  | lost => cases hx; exact ⟨s1, h1 Reply.noConfusion, .inr ⟨t, id, rfl, rfl⟩⟩

section
variable [Aes256Gcm]

/-- What a statement does is a change. -/
theorem changes_of_exec {c : Stmt} {a : Except JobError c.Answer}
    (hP : ∀ x, c.promotion t e = some x → e.reply ≠ .failed → s.covers x.receipt.occurredAt = true →
      A.promote x)
    (hO : ∀ row, c = .toOrphan row → A.orphan row.toPendingReceipt)
    (hx : exec t s c e = some (s', a)) : Changes A s (some t) s' := by
  cases c with
  | listStaging | listOrphans =>
    simp only [exec] at hx
    split at hx
    · split at hx
      · cases hx; exact (Change.listed t _).changes
      · cases hx
    · cases hx; exact (Change.same _).changes
  | findMatch p =>
    simp only [exec] at hx
    split at hx
    · cases hx; exact (Change.matched t p).changes
    · cases hx; exact changes_failed A s t p.id
  | getOrCreateDek p | encrypt p =>
    simp only [exec] at hx
    split at hx
    · cases hx; exact (Change.same _).changes
    · cases hx; exact changes_failed A s t p.id
  | promote held x m ciphertext =>
    simp only [exec] at hx
    split at hx
    · next hcov =>
      exact changes_of_write (fun hr => .promoted _ (hP _ rfl hr hcov)) (Option.some.inj hx)
    · cases hx; exact changes_failed A s t x.id
  | toOrphan row =>
    obtain ⟨s1, h1, hw⟩ := map_eq_some_iff.1 hx
    exact changes_of_write (fun _ => .orphaned (hO row rfl) h1) hw
  | countMiss row =>
    simp only [exec] at hx
    split at hx
    · cases hx; exact changes_failed A s t row.id
    · exact changes_of_write (fun _ => .missed t row.id) (Option.some.inj hx)
  | deleteMissed row cap =>
    exact changes_of_write (fun _ => .deleted t row.id cap) (Option.some.inj hx)
  | warn row => cases hx; exact (Change.agedOut t row.id).changes

end

/-- So is what a move does. -/
theorem change_of_move {x : Move} (hA : isPass (.env x) = true → A.pass)
    (hx : s.move x = some s') : Change A s none s' := by
  cases x with
  | deliver row => exact .stored hx
  | addSuppression input => cases hx; exact .suppressed input
  | removeSuppression destinationHmac now => cases hx; exact .retired destinationHmac now
  | createPartition start stop => cases hx; exact .partitioned _
  | accept now c =>
    simp only [Inbox.move] at hx
    split at hx
    · next hi => cases hx; exact .extended (.insertTransactional hi)
    · cases hx; exact .same _
  | audit now a => cases hx; exact .extended (.writeAuditRecord _ _ _)
  | beginPass cfg row => cases hx; exact .begun cfg row
  | pass i env => exact .passed (hA rfl) hx

/-- Every step is a change, with the promotion it commits. -/
theorem changes_of_step [Aes256Gcm] {a : Act} (h : system.step w a = some w') :
    Changes ⟨fun x => promotion? w a = some x, fun _ => True, isPass a = true⟩ w.shared a.run
      w'.shared := by
  cases a with
  | start i =>
    cases h
    exact (Change.same none).changes
  | env x =>
    obtain ⟨s', hs, rfl⟩ := map_eq_some_iff.1 h
    exact (change_of_move id hs).changes
  | step t e =>
    obtain ⟨i, c, k, s', a, hth, hx, rfl⟩ := Sys.step_thread h
    refine changes_of_exec (fun x hc hr hcov => ?_) (fun _ _ => trivial) hx
    simp [promotion?, hth, hc, hr, hcov, Option.filter]

/-- A step that commits a promotion, with its reply or without. -/
theorem shared_of_promotion? [Aes256Gcm] {a : Act} {x : Promotion} (hs : system.step w a = some w')
    (hx : promotion? w a = some x) :
    w'.shared = w.shared.promote x ∨
      ∃ id, w'.shared = (w.shared.promote x).note (.failed x.run id) := by
  cases a with
  | start i => cases hx
  | env y => cases hx
  | step t e =>
    obtain ⟨i, c, k, s', b, hth, hexec, rfl⟩ := Sys.step_thread hs
    simp only [promotion?, hth, filter_eq_some_iff, Bool.and_eq_true, decide_eq_true_eq] at hx
    obtain ⟨hc, hreply, hcov⟩ := hx
    cases c with
    | promote held y m ciphertext =>
      cases hc
      change exec t w.shared (.promote held y m ciphertext) e = _ at hexec
      simp only [exec, hcov, if_true] at hexec
      cases hr : e.reply with
      | ok => rw [hr] at hexec; cases hexec; exact .inl rfl
      | failed => exact absurd hr hreply
      | lost => rw [hr] at hexec; cases hexec; exact .inr ⟨y.id, rfl⟩
    | _ => cases hc

/-- It is observed. -/
theorem mem_log_of_promotion? [Aes256Gcm] {a : Act} {x : Promotion}
    (hs : system.step w a = some w') (hx : promotion? w a = some x) :
    .promoted x ∈ w'.shared.log := by
  have hlast : .promoted x ∈ (w.shared.promote x).log := mem_append_right _ (.head _)
  rcases shared_of_promotion? hs hx with heq | ⟨id, heq⟩
  · rwa [heq]
  · rw [heq]
    exact mem_append_left _ hlast

/-- What a promotion does to the ledger. -/
theorem promote_db (s : Inbox) (x : Promotion) : (s.promote x).db =
    promoteMatch s.db x.now x.matched x.receipt.toReceipt x.ciphertext := by
  unfold Inbox.promote Inbox.remove
  cases x.held <;> rfl

theorem db_of_promotion? [Aes256Gcm] {a : Act} {x : Promotion} (hs : system.step w a = some w')
    (hx : promotion? w a = some x) :
    w'.shared.db = promoteMatch w.shared.db x.now x.matched x.receipt.toReceipt x.ciphertext := by
  rw [← promote_db]
  rcases shared_of_promotion? hs hx with heq | ⟨id, heq⟩
  · rw [heq]
  · rw [heq]
    rfl

/-! ## What every change keeps -/

theorem toOrphan_eq {row : StagingRow} {newId : Uuid} (h : s.toOrphan t row newId = some s') :
    ∃ born orphans,
      s.born.insert? ⟨.orphan, { row.toPendingReceipt with id := newId }⟩ = some born ∧
      s.orphans.insert? ⟨{ row.toPendingReceipt with id := newId }, some row.providerPayloadRaw,
        0⟩ = some orphans ∧
      s' = { s.remove row.id .staging with
        born := born, orphans := orphans, log := s.log ++ [.orphaned t row.toPendingReceipt] } := by
  simp only [Inbox.toOrphan] at h
  split at h
  · next born orphans hb ho =>
    cases h
    exact ⟨born, orphans, hb, ho, rfl⟩
  · cases h

/-- A receipt is in the table already, or inserted. -/
theorem insertStaging_eq {row : StagingRow} (h : s.insertStaging row = some s') :
    ((∃ r ∈ s.staging, r.key = row.key) ∧ s' = s.note (.accepted row.toPendingReceipt)) ∨
    ∃ staging born, s.staging.insert? row = some staging ∧
      s.born.insert? ⟨.staging, row.toPendingReceipt⟩ = some born ∧
      s' = { s with
        staging := staging, born := born, log := s.log ++ [.accepted row.toPendingReceipt] } := by
  simp only [Inbox.insertStaging] at h
  split at h
  · next hi =>
    cases h
    exact .inl ⟨insert?_none hi, rfl⟩
  · next staging hi =>
    obtain ⟨born, hb, rfl⟩ := map_eq_some_iff.1 h
    exact .inr ⟨staging, born, hi, hb, rfl⟩

theorem mem_countMiss {id : Uuid} {r : OrphanRow} : r ∈ (s.countMiss t id).orphans ↔
    (r ∈ s.orphans ∧ r.id ≠ id) ∨
    ∃ r0 ∈ s.orphans, r0.id = id ∧
      r = { r0 with reconcileAttempts := r0.reconcileAttempts + 1 } := by
  simp only [Inbox.countMiss, mem_update, decide_eq_true_eq, decide_eq_false_iff_not, ne_eq]

theorem deleteMissed_eq (s : Inbox) (t : Nat) (id : Uuid) (cap : Nat) :
    s.deleteMissed t id cap = s ∨ ∃ r ∈ s.orphans, r.id = id ∧ cap ≤ r.reconcileAttempts ∧
      s.deleteMissed t id cap = (s.remove id .orphan).note (.deleted t r.toPendingReceipt cap) := by
  unfold Inbox.deleteMissed
  split
  · next r hr =>
    have hp := List.find?_some hr
    simp only [Bool.and_eq_true, decide_eq_true_eq] at hp
    exact .inr ⟨r, mem_of_find?_eq_some hr, hp.1, hp.2, rfl⟩
  · exact .inl rfl

theorem pass_eq (h : s.pass i env = some s') :
    ∃ cfg row stage, s.passes[i]? = some ⟨cfg, row, .goto stage⟩ ∧
      s' = { s with
        db := (Messgr.tryProcess cfg s.db row env stage).2
        passes := s.passes.set i ⟨cfg, row, (Messgr.tryProcess cfg s.db row env stage).1⟩
        log := s.log ++
          s.passObs i row env (Messgr.tryProcess cfg s.db row env stage).2 stage } := by
  simp only [Inbox.pass] at h
  split at h
  · next cfg row stage hp =>
    cases h
    exact ⟨cfg, row, stage, hp, rfl⟩
  · cases h

/-- What is observed of a pass: its suppression read, its call, its write. -/
theorem mem_passObs {row : OutboxRow} {db : TenantDb} {stage : Stage} {o : Obs}
    (h : o ∈ s.passObs i row env db stage) :
    (∃ r, stage = .suppression ∧ env.reply = .ok ∧
      s.db.commsRequest.find? (row.createdAt, row.commsRequestId) = some r ∧
      o = .gate i r.destinationHmac env.now) ∨
    (stage = .send ∧ o = .called i) ∨
    ∃ status providerRef providerStatus, stage = .terminal status providerRef providerStatus ∧
      env.reply ≠ .failed ∧
      o = .wrote i ((db.commsRequest.find? (row.createdAt, row.commsRequestId)).bind
        (·.finalStatus)) := by
  unfold Inbox.passObs at h
  split at h
  · split at h
    · next r hr hf => exact .inl ⟨r, rfl, hr, hf, mem_singleton.1 h⟩
    · cases h
  · exact .inr (.inl ⟨rfl, mem_singleton.1 h⟩)
  · split at h
    · cases h
    · next hr => exact .inr (.inr ⟨_, _, _, rfl, hr, mem_singleton.1 h⟩)
  · cases h

/-- A step of a pass is no observation of a run. -/
theorem run_of_mem_passObs {row : OutboxRow} {db : TenantDb} {stage : Stage} {o : Obs}
    (h : o ∈ s.passObs i row env db stage) : o.run = none := by
  rcases mem_passObs h with ⟨r, -, -, -, rfl⟩ | ⟨-, rfl⟩ | ⟨_, _, _, -, -, rfl⟩ <;> rfl

/-- The log grows by observations of the run. -/
theorem Change.log (h : Change A s u s') : ∃ l, s'.log = s.log ++ l ∧ ∀ o ∈ l, o.run = u := by
  have one : ∀ o : Obs, o.run = u → ∀ o' ∈ [o], o'.run = u := fun o ho o' h' => by
    rw [mem_singleton.1 h']; exact ho
  have none' : ∀ o ∈ ([] : List Obs), o.run = u := fun _ h => absurd h not_mem_nil
  cases h with
  | same | partitioned | extended | begun => exact ⟨[], (append_nil _).symm, none'⟩
  | listed | matched | promoted | missed | agedOut | suppressed | retired =>
    exact ⟨_, rfl, one _ rfl⟩
  | orphaned _ done =>
    obtain ⟨-, -, -, -, rfl⟩ := toOrphan_eq done
    exact ⟨_, rfl, one _ rfl⟩
  | deleted t id cap =>
    rcases deleteMissed_eq s t id cap with heq | ⟨r, -, -, -, heq⟩
    · exact ⟨[], by rw [heq, append_nil], none'⟩
    · exact ⟨_, by rw [heq]; rfl, one (.deleted t r.toPendingReceipt cap) rfl⟩
  | stored done =>
    rcases insertStaging_eq done with ⟨-, rfl⟩ | ⟨-, -, -, -, rfl⟩
    · exact ⟨_, rfl, one _ rfl⟩
    · exact ⟨_, rfl, one _ rfl⟩
  | passed _ done =>
    obtain ⟨-, -, -, -, rfl⟩ := pass_eq done
    exact ⟨_, rfl, fun o ho => run_of_mem_passObs ho⟩

/-- Copies stay. -/
theorem Change.born (h : Change A s u s') {c : Copy} (hc : c ∈ s.born) : c ∈ s'.born := by
  cases h with
  | promoted x => unfold Inbox.promote Inbox.remove; cases x.held <;> exact hc
  | orphaned _ done =>
    obtain ⟨born, -, hb, -, rfl⟩ := toOrphan_eq done
    exact ((insert?_some hb).2 c).2 (.inl hc)
  | deleted t id cap =>
    rcases deleteMissed_eq s t id cap with heq | ⟨r, -, -, -, heq⟩ <;> rw [heq] <;> exact hc
  | stored done =>
    rcases insertStaging_eq done with ⟨-, rfl⟩ | ⟨-, born, -, hb, rfl⟩
    · exact hc
    · exact ((insert?_some hb).2 c).2 (.inl hc)
  | passed _ done => obtain ⟨-, -, -, -, rfl⟩ := pass_eq done; exact hc
  | _ => exact hc

/-- So do events, requests and their destinations. -/
theorem Change.keeps (h : Change A s u s') : s.db.Keeps s'.db := by
  cases h with
  | promoted x => rw [promote_db]; exact .promoteMatch _ _ _ _ _
  | orphaned _ done => obtain ⟨-, -, -, -, rfl⟩ := toOrphan_eq done; exact .refl _
  | deleted t id cap =>
    rcases deleteMissed_eq s t id cap with heq | ⟨r, -, -, -, heq⟩ <;> rw [heq] <;> exact .refl _
  | stored done =>
    rcases insertStaging_eq done with ⟨-, rfl⟩ | ⟨-, -, -, -, rfl⟩ <;> exact .refl _
  | suppressed | retired => exact ⟨fun _ h => h, (TenantDb.Keeps.refl _).requests⟩
  | extended rows => exact rows.keeps
  | passed _ done =>
    obtain ⟨-, -, -, -, rfl⟩ := pass_eq done
    exact (TenantDb.keeps_tryProcess _ _ _ _ _).1
  | _ => exact .refl _

end

end Receipts

end Messgr
