import Messgr.Dispatcher.Queue
import Messgr.Lib.Lease

/-!
# Leases on outbox rows

`leased_until` says that a row is leased, not to whom, and nothing ever compares it with the clock.
`World.leases` reads the world as a pool of leased items, and every step of the world is an event of
that pool (`step_lease`). The library then gives `single_holder`, for runs in which no sweep takes
the lease of a row that a live task still holds, and `leased_rows_are_held`, for runs in which
nothing fails between the claim of a row and the write that ends it.
-/

namespace Messgr

open List Table Nat World
open Lease (Event)

/-! ## The queue as a pool -/

/-- The queued messages whose row has a property. -/
def queued (db : TenantDb) (p : OutboxRow → Prop) : Set Uuid :=
  {id | ∃ r ∈ db.outbox, r.commsRequestId = id ∧ p r}

/-- A row under a lease. -/
def OutboxRow.Leased (r : OutboxRow) : Prop := r.leasedUntil ≠ none

/-- The world as a pool of leased items, with the tasks as its workers. -/
def World.leases (w : World) : Lease.State Uuid Nat where
  present := queued w.db fun _ => True
  leased := queued w.db OutboxRow.Leased
  held t := {id | ∃ j, w.Holds t j ∧ j.id = id}

section
variable {db db' : TenantDb} {p : OutboxRow → Prop} {id : Uuid}

/-- A queued message has a property when its row has. -/
theorem mem_queued {r : OutboxRow} (hr : r ∈ db.outbox) : r.commsRequestId ∈ queued db p ↔ p r := by
  refine ⟨fun ⟨r', hr', hid, hp⟩ => ?_, fun hp => ⟨r, hr, rfl, hp⟩⟩
  rwa [← eq_of_key hr' hr hid]

/-- An `UPDATE` of the queue that does not touch the property. -/
theorem queued_update {q : OutboxRow → Bool} {f : OutboxRow → OutboxRow}
    {hf : ∀ r, (f r).commsRequestId = r.commsRequestId} (hp : ∀ r, p (f r) ↔ p r) :
    queued { db with outbox := db.outbox.update q f hf } p = queued db p := by
  ext id
  constructor
  · intro ⟨r, hr, hid, hpr⟩
    rcases (mem_update hf).1 hr with ⟨hr, -⟩ | ⟨r0, hr0, -, rfl⟩
    · exact ⟨r, hr, hid, hpr⟩
    · exact ⟨r0, hr0, (hf r0).symm.trans hid, (hp r0).1 hpr⟩
  · intro ⟨r, hr, hid, hpr⟩
    cases hq : q r with
    | false => exact ⟨r, (mem_update hf).2 (.inl ⟨hr, hq⟩), hid, hpr⟩
    | true =>
      exact ⟨f r, (mem_update hf).2 (.inr ⟨r, hr, hq, rfl⟩), (hf r).trans hid, (hp r).2 hpr⟩

/-- A terminal write takes its message out. -/
theorem queued_writeTerminal {now createdAt : Time} {customerId : Uuid}
    {eventType finalStatus : Status} {providerRef providerStatus : Option String} :
    queued (writeTerminal db now createdAt id customerId eventType providerRef providerStatus
      finalStatus) p = queued db p \ {id} := by
  ext id'
  constructor
  · intro ⟨r, hr, hid, hpr⟩
    obtain ⟨hr, hne⟩ := mem_writeTerminal.1 hr
    exact ⟨⟨r, hr, hid, hpr⟩, fun h => hne (hid.trans h)⟩
  · intro ⟨⟨r, hr, hid, hpr⟩, hne⟩
    exact ⟨r, mem_writeTerminal.2 ⟨hr, fun h => hne (hid.symm.trans h)⟩, hid, hpr⟩

/-- A claim leases the messages it takes. -/
theorem leased_lease {ids : List Uuid} {leasedUntil : Time}
    (h : ∀ id ∈ ids, ∃ r ∈ db.outbox, r.commsRequestId = id) :
    queued (db.lease ids leasedUntil) OutboxRow.Leased =
      queued db OutboxRow.Leased ∪ {id | id ∈ ids} := by
  ext id
  constructor
  · intro ⟨r, hr, hid, hl⟩
    rcases mem_lease.1 hr with ⟨hr, -⟩ | ⟨r0, -, hm, rfl⟩
    · exact .inl ⟨r, hr, hid, hl⟩
    · exact .inr (show id ∈ ids from hid ▸ hm)
  · intro hid
    by_cases hm : id ∈ ids
    · obtain ⟨r, hr, rfl⟩ := h id hm
      exact ⟨_, mem_lease.2 (.inr ⟨r, hr, hm, rfl⟩), rfl, Option.some_ne_none _⟩
    · obtain ⟨r, hr, rfl, hl⟩ := hid.resolve_right hm
      exact ⟨r, mem_lease.2 (.inl ⟨hr, hm⟩), rfl, hl⟩

/-- A reschedule gives its message back. -/
theorem leased_rescheduleRetry {nextAttemptAt : Time} :
    queued (rescheduleRetry db id nextAttemptAt) OutboxRow.Leased =
      queued db OutboxRow.Leased \ {id} := by
  ext id'
  constructor
  · intro ⟨r, hr, hid, hl⟩
    rcases mem_rescheduleRetry.1 hr with ⟨hr, hne⟩ | ⟨r0, -, -, rfl⟩
    · exact ⟨⟨r, hr, hid, hl⟩, fun h => hne (hid.trans h)⟩
    · exact absurd rfl hl
  · intro ⟨⟨r, hr, hid, hl⟩, hne⟩
    exact ⟨r, mem_rescheduleRetry.2 (.inl ⟨hr, fun h => hne (hid.symm.trans h)⟩), hid, hl⟩

/-- After the sweep nothing is leased. -/
theorem leased_clearStaleLeases : queued (clearStaleLeases db) OutboxRow.Leased = ∅ := by
  refine Set.eq_empty_of_forall_notMem fun id ⟨r, hr, _, hl⟩ => ?_
  obtain ⟨r0, -, rfl⟩ := mem_clearStaleLeases.1 hr
  exact hl rfl

/-- A new message is queued without a lease. -/
theorem queued_insertTransactional {now : Time} {c : NewComms}
    (hout : ∀ o, o ∈ db'.outbox ↔ o ∈ db.outbox ∨ o = c.outboxRow now) :
    queued db' (fun _ => True) = queued db (fun _ => True) ∪ {c.commsRequestId} ∧
      queued db' OutboxRow.Leased = queued db OutboxRow.Leased := by
  constructor
  · ext id
    constructor
    · intro ⟨r, hr, hid, _⟩
      rcases (hout r).1 hr with hr | rfl
      · exact .inl ⟨r, hr, hid, trivial⟩
      · exact .inr hid.symm
    · intro hid
      rcases hid with ⟨r, hr, hid, _⟩ | hid
      · exact ⟨r, (hout r).2 (.inl hr), hid, trivial⟩
      · exact ⟨_, (hout _).2 (.inr rfl), .symm hid, trivial⟩
  · ext id
    constructor
    · intro ⟨r, hr, hid, hl⟩
      rcases (hout r).1 hr with hr | rfl
      · exact ⟨r, hr, hid, hl⟩
      · exact absurd rfl hl
    · intro ⟨r, hr, hid, hl⟩
      exact ⟨r, (hout r).2 (.inl hr), hid, hl⟩

end

/-! ## Every step is an event of the pool -/

/-- The acts behind the events: only a sweep takes every lease away, only a claim whose reply was
lost leases rows that nobody knows of, only a crash ends tasks, and a row is let go as it is only
when its pass ends with an error. -/
def Explains (w : World) (a : Act) : Event Uuid Nat → Prop
  | .wipe => ∃ p, a = .sweep p
  | .orphan ids => ∃ t env task leasedUntil exclusion, a = .task t env ∧
      w.tasks[t]? = some task ∧ task.pc = .claiming leasedUntil exclusion ∧ env.reply = .lost ∧
      ids = {id | id ∈ env.pick.ids}
  | .drop tasks => ∃ h, a = .crash h ∧ tasks = {t | ∃ task ∈ w.tasks[t]?, task.owner = h}
  | .abandon t id => ∃ env task job cfg e, a = .task t env ∧ w.tasks[t]? = some task ∧
      task.pc.jobs.rows.head? = some job ∧ job.id = id ∧
      (tryProcess cfg w.db job.row env job.stage).1 = .ended (.error e) ∧
      (tryProcess cfg w.db job.row env job.stage).2.outbox = w.db.outbox
  | _ => True

section
variable {w w' : World} {a : Act} {leasedUntil : Time} {eligible : OutboxRow → Bool}

theorem held_congr (h : ∀ t j, w'.Holds t j ↔ w.Holds t j) : w'.leases.held = w.leases.held := by
  funext t
  ext id
  exact exists_congr fun j => and_congr_left' (h t j)

theorem queued_congr {db db' : TenantDb} {p : OutboxRow → Prop} (h : db'.outbox = db.outbox) :
    queued db' p = queued db p := by
  rw [queued, h]
  rfl

/-- A claim takes messages that are queued and not leased. -/
theorem enabled_of_claimed {db db' : TenantDb} {ids : List Uuid} {rows : OutboxRows}
    (hu : ∀ r, eligible r = true → r.leasedUntil = none)
    (hc : Claimed db eligible leasedUntil ids rows db') :
    ∀ id ∈ ids, id ∈ queued db (fun _ => True) ∧ id ∉ queued db OutboxRow.Leased := by
  intro id hid
  obtain ⟨r, hr, rfl, he⟩ := hc.eligible id hid
  exact ⟨(mem_queued hr).2 trivial, fun hl => (mem_queued hr).1 hl (hu r he)⟩

theorem leases_of_claimed {ids : List Uuid} {rows : OutboxRows}
    (hc : Claimed w.db eligible leasedUntil ids rows w'.db) :
    w'.leases.present = w.leases.present ∧
      w'.leases.leased = w.leases.leased ∪ {id | id ∈ ids} := by
  simp only [World.leases, hc.db]
  refine ⟨queued_update fun _ => .rfl, leased_lease fun id hid => ?_⟩
  obtain ⟨r, hr, hrid, -⟩ := hc.eligible id hid
  exact ⟨r, hr, hrid⟩

/-- What tasks hold after a step of a pass that goes on, and of one that ends. -/
theorem held_of_passed {t : Nat} {job : Job} {next : Next} (hjob : w.Holds t job)
    (holds : ∀ t' j, w'.Holds t' j ↔ (w.Holds t' j ∧ ¬ (t' = t ∧ j.id = job.id)) ∨
      (t' = t ∧ ∃ stage, next = .goto stage ∧ j = { job with stage := stage })) :
    (∀ stage, next = .goto stage → w'.leases.held = w.leases.held) ∧
      ∀ result, next = .ended result → w'.leases.held = w.leases.without t job.id := by
  constructor
  · intro stage hnext
    funext t'
    ext id
    constructor
    · intro ⟨j, hj, hid⟩
      rcases (holds t' j).1 hj with ⟨hj, -⟩ | ⟨rfl, stage, -, rfl⟩
      · exact ⟨j, hj, hid⟩
      · exact ⟨job, hjob, hid⟩
    · intro ⟨j, hj, hid⟩
      by_cases hc : t' = t ∧ j.id = job.id
      · obtain ⟨rfl, hc⟩ := hc
        exact ⟨_, (holds t' _).2 (.inr ⟨rfl, stage, hnext, rfl⟩), hc.symm.trans hid⟩
      · exact ⟨j, (holds t' j).2 (.inl ⟨hj, hc⟩), hid⟩
  · intro result hnext
    funext t'
    ext id
    constructor
    · intro ⟨j, hj, hid⟩
      rcases (holds t' j).1 hj with ⟨hj, hc⟩ | ⟨-, stage, hgoto, -⟩
      · exact ⟨⟨j, hj, hid⟩, fun h => hc ⟨h.1, hid.trans h.2⟩⟩
      · rw [hnext] at hgoto
        cases hgoto
    · intro ⟨⟨j, hj, hid⟩, hc⟩
      exact ⟨j, (holds t' j).2 (.inl ⟨hj, fun h => hc ⟨h.1, hid.symm.trans h.2⟩⟩), hid⟩

/-- A step of a pass is an event of the pool. -/
theorem passed_lease {t : Nat} {env : Env} {cfg : Config} {task : Task} {job : Job}
    (lookup : w.tasks[t]? = some task) (head : task.pc.jobs.rows.head? = some job)
    (db : w'.db = (tryProcess cfg w.db job.row env job.stage).2)
    (holds : ∀ t' j, w'.Holds t' j ↔ (w.Holds t' j ∧ ¬ (t' = t ∧ j.id = job.id)) ∨
      (t' = t ∧ ∃ stage, (tryProcess cfg w.db job.row env job.stage).1 = .goto stage ∧
        j = { job with stage := stage })) :
    ∃ e, w.leases.Enabled e ∧ w'.leases = w.leases.apply e ∧ Explains w (.task t env) e := by
  have hjob : w.Holds t job := ⟨task, lookup, mem_of_mem_head? head⟩
  have hheld : job.id ∈ w.leases.held t := ⟨job, hjob, rfl⟩
  obtain ⟨hgoto, hended⟩ := held_of_passed hjob holds
  -- a step that leaves the queue as it is: the pass goes on, or ends and lets go of the row
  have same : w'.db.outbox = w.db.outbox →
      (tryProcess cfg w.db job.row env job.stage).1 ≠ .ended (.ok ()) →
      ∃ e, w.leases.Enabled e ∧ w'.leases = w.leases.apply e ∧ Explains w (.task t env) e := by
    intro hout hne
    cases hnext : (tryProcess cfg w.db job.row env job.stage).1 with
    | goto stage =>
      refine ⟨.idle, trivial, ?_, trivial⟩
      exact Lease.State.ext (queued_congr hout) (queued_congr hout) (hgoto stage hnext)
    | ended result =>
      cases result with
      | ok r => exact absurd hnext hne
      | error e =>
        refine ⟨.abandon t job.id, trivial, ?_,
          env, task, job, cfg, e, rfl, lookup, head, rfl, hnext, db ▸ hout⟩
        exact Lease.State.ext (queued_congr hout) (queued_congr hout) (hended _ hnext)
  -- a step that writes the end of the message: the row is gone, and the task may not know
  have gone : (∀ p, queued w'.db p = queued w.db p \ {job.id}) →
      ∃ e, w.leases.Enabled e ∧ w'.leases = w.leases.apply e ∧ Explains w (.task t env) e := by
    intro hq
    cases hnext : (tryProcess cfg w.db job.row env job.stage).1 with
    | goto stage =>
      exact ⟨.erase job.id, trivial, Lease.State.ext (hq _) (hq _) (hgoto stage hnext), trivial⟩
    | ended result =>
      exact ⟨.retire t job.id, hheld, Lease.State.ext (hq _) (hq _) (hended _ hnext), trivial⟩
  have hpass := @tryProcess_passStep cfg w.db job.row env job.stage
  rw [← db] at hpass
  generalize hdb : w'.db = db' at hpass
  generalize hstage : job.stage = stage at hpass
  generalize hnext : (tryProcess cfg w.db job.row env stage).1 = next at hpass
  rw [← hstage] at hnext
  cases hpass with
  | goto => exact same (by rw [hdb]) (by rw [hnext]; exact Next.noConfusion)
  | gaveUp => exact same (by rw [hdb]) (by rw [hnext]; simp)
  | recorded result => exact same (by rw [hdb]; exact insertEvent_outbox) (hnext ▸ result)
  | wrote | bounded => exact gone fun p => by rw [hdb]; exact queued_writeTerminal
  | rescheduled =>
    refine ⟨.release t job.id, hheld, ?_, trivial⟩
    refine Lease.State.ext ?_ ?_ (hended _ hnext)
    · simp only [World.leases, hdb]
      exact queued_update fun _ => .rfl
    · simp only [World.leases, hdb]
      exact leased_rescheduleRetry

/-- Every step of the world is an event of the pool. -/
theorem step_lease (h : w.Sound) (hq : QueueStep w a w') :
    ∃ e, w.leases.Enabled e ∧ w'.leases = w.leases.apply e ∧ Explains w a e := by
  cases hq with
  | frame outbox commsRequest commsEvent holds log quiet =>
    exact ⟨.idle, trivial, Lease.State.ext (queued_congr outbox) (queued_congr outbox)
      (held_congr holds), trivial⟩
  | @inserted now c outcome _ fresh db holds log =>
    rcases insertTransactional_ok db with ⟨hdb, -⟩ | ⟨-, -, hout, -⟩
    · exact ⟨.idle, trivial, Lease.State.ext (queued_congr (by rw [hdb]))
        (queued_congr (by rw [hdb])) (held_congr holds), trivial⟩
    · obtain ⟨hp, hl⟩ := queued_insertTransactional hout
      refine ⟨.insert c.commsRequestId, fun t ⟨j, hj, hid⟩ => ?_,
        Lease.State.ext hp hl (held_congr holds), trivial⟩
      -- a row that a task holds has its request, and the id is new to the ledger
      obtain ⟨r, hr, hrid, -⟩ := h.held hj
      exact fresh r hr (hrid.trans hid)
  | cancelled found db holds log =>
    refine ⟨.idle, trivial, Lease.State.ext ?_ ?_ (held_congr holds), trivial⟩
    · simp only [World.leases, db]
      exact queued_update fun _ => .rfl
    · simp only [World.leases, db]
      exact queued_update fun _ => .rfl
  | wasCancelled found db holds log =>
    exact ⟨.idle, trivial, Lease.State.ext (queued_congr (by rw [db])) (queued_congr (by rw [db]))
      (held_congr holds), trivial⟩
  | @swept p _ db holds log =>
    refine ⟨.wipe, trivial, Lease.State.ext ?_ ?_ (held_congr holds), p, rfl⟩
    · simp only [World.leases, db]
      exact queued_update fun _ => .rfl
    · simp only [World.leases, db]
      exact leased_clearStaleLeases
  | @crashed p _ db holds log =>
    refine ⟨.drop _, trivial, Lease.State.ext (queued_congr (by rw [db]))
      (queued_congr (by rw [db])) ?_, p, rfl, rfl⟩
    funext t
    ext id
    exact ⟨fun ⟨j, hj, hid⟩ => ⟨⟨j, ((holds t j).1 hj).1, hid⟩, ((holds t j).1 hj).2⟩,
      fun ⟨⟨j, hj, hid⟩, hd⟩ => ⟨j, (holds t j).2 ⟨hj, hd⟩, hid⟩⟩
  | lost lookup pc reply unleased claimed holds log quiet =>
    obtain ⟨hp, hl⟩ := leases_of_claimed claimed
    exact ⟨.orphan _, trivial, Lease.State.ext hp hl (held_congr holds),
      _, _, _, _, _, rfl, lookup, pc, reply, rfl⟩
  | @claimed t env _ leasedUntil _ _ _ task lookup unleased claimed holds log quiet =>
    obtain ⟨hp, hl⟩ := leases_of_claimed claimed
    refine ⟨.grant t {id | id ∈ env.pick.ids}, enabled_of_claimed unleased claimed,
      Lease.State.ext hp hl ?_, trivial⟩
    funext t'
    ext id
    constructor
    · intro ⟨j, hj, hid⟩
      rcases (holds t' j).1 hj with hj | ⟨ht, hrow, -⟩
      · exact .inl ⟨j, hj, hid⟩
      · obtain ⟨r0, -, hr0, heq⟩ := (claimed.mem_rows _).1 hrow
        have hjr : j.id = r0.commsRequestId := by rw [Job.id, heq]; rfl
        exact .inr ⟨ht, show id ∈ env.pick.ids from hid ▸ hjr ▸ hr0⟩
    · intro hid
      rcases hid with ⟨j, hj, hid⟩ | ⟨ht, hid⟩
      · exact ⟨j, (holds t' j).2 (.inl hj), hid⟩
      · obtain ⟨r, hr, rfl, -⟩ := claimed.eligible id hid
        exact ⟨⟨r.leased leasedUntil, task.kind.firstStage env.clock (r.leased leasedUntil)⟩,
          (holds t' _).2 (.inr ⟨ht, (claimed.mem_rows _).2 ⟨r, hr, hid, rfl⟩, rfl⟩), rfl⟩
  | passed lookup head db holds log => exact passed_lease lookup head db holds

/-- Every run, with any failures, is a run of the pool, with an event for each step, in which only
a sweep takes the leases away. -/
theorem run_refines_pool [UuidCrate] {as : List Act} (h0 : w.Initial)
    (h : Run.Steps World.step Run.Any w as w') :
    ∃ es, Run.Steps (fun s e => some (s.apply e)) Lease.State.Enabled w.leases es w'.leases ∧
      List.Forall₂ (fun a e => e = .wipe → ∃ p, a = .sweep p) as es := by
  have hs := h0.sound
  clear h0
  induction h with
  | nil => exact ⟨[], .nil, .nil⟩
  | cons _ hstep _ ih =>
    have hq := queueStep_of_step hstep
    obtain ⟨e, he, heq, hx⟩ := step_lease hs hq
    obtain ⟨es, hes, hall⟩ := ih (hs.step hq)
    exact ⟨e :: es, .cons he (congrArg some heq.symm) hes, .cons (by rintro rfl; exact hx) hall⟩

end

/-! ## One holder of a row -/

/-- A condition: when a new leader sweeps, no task holds a row that is still queued. -/
def sweepsNoHeldRow (w : World) : Act → Bool
  | .sweep _ => w.tasks.all fun task => task.pc.jobs.rows.all fun j =>
      w.db.outbox.rows.all fun r => r.commsRequestId ≠ j.id
  | _ => true

/-- The provider calls, against the queue and the rows that tasks hold. As claims count up
`attempts`, a message and a number of attempts name one lease. -/
structure Calls (w : World) : Prop where
  known : ∀ {p t id n}, .providerCall p t id n ∈ w.log → ∃ q ∈ w.db.commsRequest, q.id = id
  le : ∀ {p t n}, ∀ r ∈ w.db.outbox, .providerCall p t r.commsRequestId n ∈ w.log → n ≤ r.attempts
  held_le : ∀ {t j}, ∀ r ∈ w.db.outbox, w.Holds t j → j.id = r.commsRequestId →
    j.row.attempts ≤ r.attempts
  holder : ∀ {p t t' j}, .providerCall p t j.id j.row.attempts ∈ w.log → w.Holds t' j → t' = t
  unique : ∀ {p p' t t' id n}, .providerCall p t id n ∈ w.log → .providerCall p' t' id n ∈ w.log →
    t = t'

section
variable {w w' : World} {a : Act} {p t t' n : Nat} {id : Uuid} {j : Job} {r' : OutboxRow}

theorem World.leases_unique {j' : Job} (he : w.leases.Exclusive) (hj : w.Holds t j)
    (hj' : w.Holds t' j') (hid : j.id = j'.id) : t = t' :=
  he.unique ⟨_, hj, hid⟩ ⟨_, hj', rfl⟩

/-- A message called for after a step was in the ledger before. -/
theorem Calls.request_of_call (h : Calls w) (hs : w.Sound) (hq : QueueStep w a w')
    (hc : .providerCall p t id n ∈ w'.log) : ∃ q ∈ w.db.commsRequest, q.id = id := by
  rcases hq.providerCall_cases hc with hc | ⟨job, hjob, rfl, -⟩
  · exact h.known hc
  · exact hs.request_of_holds hjob

/-- A step makes no call beyond the attempts of the row. -/
theorem Calls.le_step (h : Calls w) (hs : w.Sound) (hq : QueueStep w a w')
    (hr' : r' ∈ w'.db.outbox) (hc : .providerCall p t r'.commsRequestId n ∈ w'.log) :
    n ≤ r'.attempts := by
  rcases hq.outbox_cases hr' with ⟨r, hr, hb⟩ | hnew
  · rw [← hb.id] at hc
    rcases hq.providerCall_cases hc with hc | ⟨job, hjob, hid, rfl, -⟩
    · exact (h.le r hr hc).trans hb.attempts
    · exact (h.held_le r hr hjob hid).trans hb.attempts
  · obtain ⟨q, hq, hqid⟩ := h.request_of_call hs hq hc
    exact absurd hqid (hnew q hq)

/-- A row that is held has no fewer attempts than its holder knows of. -/
theorem Calls.held_le_step (h : Calls w) (hs : w.Sound) (hq : QueueStep w a w')
    (hr' : r' ∈ w'.db.outbox) (hj : w'.Holds t j) (hid : j.id = r'.commsRequestId) :
    j.row.attempts ≤ r'.attempts := by
  have old : ∀ {job}, w.Holds t job → job.id = r'.commsRequestId →
      job.row.attempts ≤ r'.attempts := by
    intro job hjob hid
    rcases hq.outbox_cases hr' with ⟨r, hr, hb⟩ | hnew
    · exact (h.held_le r hr hjob (hid.trans hb.id.symm)).trans hb.attempts
    · obtain ⟨q, hq, hqid⟩ := hs.request_of_holds hjob
      exact absurd (hqid.trans hid) (hnew q hq)
  rcases hq.holds_cases hj with hj | ⟨r0, hr0, _, _, _, -, hrow, -⟩ |
    ⟨_, _, job, _, -, hjob, -, rfl⟩
  · exact old hj hid
  · exact le_of_eq (congrArg _ (eq_of_key hrow hr' hid))
  · exact @old job (holds_of_job? hjob) hid

/-- Who holds a lease that was called for made the call. -/
theorem Calls.holder_step (h : Calls w) (hq : QueueStep w a w') (he : w.leases.Exclusive)
    (hc : .providerCall p t j.id j.row.attempts ∈ w'.log) (hj : w'.Holds t' j) : t' = t := by
  have old : ∀ {job}, w.Holds t' job → job.id = j.id → job.row.attempts = j.row.attempts →
      t' = t := by
    intro job hjob hid hn
    rcases hq.providerCall_cases hc with hc | ⟨job', hjob', hid', -⟩
    · rw [← hid, ← hn] at hc
      exact h.holder hc hjob
    · exact leases_unique he hjob hjob' (hid.trans hid'.symm)
  rcases hq.holds_cases hj with hj | ⟨r0, hr0, leasedUntil, _, _, heq, -⟩ |
    ⟨_, _, job, _, -, hjob, -, rfl⟩
  · exact old hj rfl rfl
  · -- the claim just made is one more than all calls so far
    exfalso
    have hid : j.id = r0.commsRequestId := by rw [Job.id, heq]; rfl
    have hlt : r0.attempts < j.row.attempts := by rw [heq]; exact lt_succ_self _
    rcases hq.providerCall_cases hc with hc | ⟨job, hjob, hid', hn, -⟩
    · exact absurd (h.le r0 hr0 (hid ▸ hc)) (not_le.2 hlt)
    · exact absurd (hn ▸ h.held_le r0 hr0 hjob (hid'.trans hid)) (not_le.2 hlt)
  · exact @old job (holds_of_job? hjob) rfl rfl

/-- A step keeps the calls of a lease with one task, while rows have one holder. -/
theorem Calls.step (h : Calls w) (hs : w.Sound) (hq : QueueStep w a w')
    (he : w.leases.Exclusive) : Calls w' := by
  refine ⟨fun {p t id n} hc => ?_, fun r' hr' hc => h.le_step hs hq hr' hc,
    fun r' hr' hj hid => h.held_le_step hs hq hr' hj hid, fun hc hj => h.holder_step hq he hc hj,
    fun {p p' t t' id n} hc hc' => ?_⟩
  · obtain ⟨q, hqmem, rfl⟩ := h.request_of_call hs hq hc
    obtain ⟨q', hq', hid, -⟩ := (hs.db_step hq).2 q hqmem
    exact ⟨q', hq', hid⟩
  · rcases hq.providerCall_cases hc with hc | ⟨job, hjob, rfl, rfl, -⟩ <;>
      rcases hq.providerCall_cases hc' with hc' | ⟨job', hjob', hid', hn', -⟩
    · exact h.unique hc hc'
    · subst hid' hn'
      exact (h.holder hc hjob').symm
    · exact h.holder hc' hjob
    · exact leases_unique he hjob hjob' hid'.symm

/-- A step keeps holders unique, unless it sweeps while a task holds a queued row. -/
theorem exclusive_step (h : w.leases.Exclusive) (hs : w.Sound) (hq : QueueStep w a w')
    (hc : sweepsNoHeldRow w a = true) : w'.leases.Exclusive := by
  obtain ⟨e, he, heq, hx⟩ := step_lease hs hq
  rw [heq]
  refine h.apply he fun hwipe t id ⟨j, ⟨task, ht, hj⟩, hid⟩ ⟨r, hr, hrid, _⟩ => ?_
  subst hwipe
  obtain ⟨p, rfl⟩ := hx
  simp only [sweepsNoHeldRow, all_eq_true, decide_eq_true_eq] at hc
  exact hc task (mem_of_getElem? ht) j hj r hr (hrid.trans hid.symm)

variable [UuidCrate]

/-- In every run of any number of dispatchers in which no sweep takes the lease of a row that a task
still holds, no two tasks hold the same row at any moment, and no two tasks call the provider for
the same lease of a row. -/
theorem single_holder {w0 : World} {as : List Act} (h0 : w0.Initial)
    (h : Run.Steps World.step (sweepsNoHeldRow · ·) w0 as w) :
    (∀ t t' j j', w.Holds t j → w.Holds t' j' → j.id = j'.id → t = t') ∧
      ∀ p p' t t' id attempts, .providerCall p t id attempts ∈ w.log →
        .providerCall p' t' id attempts ∈ w.log → t = t' := by
  have hinv : w.Sound ∧ w.leases.Exclusive ∧ Calls w := by
    refine h.inv (I := fun w => w.Sound ∧ w.leases.Exclusive ∧ Calls w) ?_ ?_
    · intro w a w' hc hs ⟨hsound, he, hcalls⟩
      have hq := queueStep_of_step hs
      exact ⟨hsound.step hq, exclusive_step he hsound hq hc, hcalls.step hsound hq he⟩
    · have hlog : ∀ {o}, o ∉ w0.log := by simp [h0.log]
      refine ⟨h0.sound, ⟨?_, ?_⟩, ⟨?_, ?_, ?_, ?_, ?_⟩⟩
      · exact fun ⟨j, hj, _⟩ => absurd hj h0.not_holds
      · exact fun ⟨j, hj, _⟩ => absurd hj h0.not_holds
      · exact fun hc => absurd hc hlog
      · exact fun r _ hc => absurd hc hlog
      · exact fun r _ hj => absurd hj h0.not_holds
      · exact fun hc => absurd hc hlog
      · exact fun hc => absurd hc hlog
  obtain ⟨-, he, hcalls⟩ := hinv
  exact ⟨fun t t' j j' hj hj' hid => he.unique ⟨j, hj, hid⟩ ⟨j', hj', rfl⟩,
    fun p p' t t' id attempts hc hc' => hcalls.unique hc hc'⟩

end

/-- A dispatcher is elected and claims a message, of which it makes one call. -/
def sampleSend : List Act :=
  [Act.startDispatcher .sample, .openContext] ++ Act.elect 0 ++ Act.accept 1 (.sample ⟨7⟩ "k") ++
    [Act.task 0 {}] ++ Act.claimRow 0 ⟨7⟩ ++ List.replicate 11 (Act.task 0 {})

theorem single_holder_sampleSend :
    ∃ w, Run.Steps (@World.step .sample) (sweepsNoHeldRow · ·) .empty sampleSend w ∧
      ⟨7⟩ ∈ w.heldIds 0 ∧ Obs.providerCall 0 0 ⟨7⟩ 1 ∈ w.log ∧
      ∀ t t' j j', w.Holds t j → w.Holds t' j' → j.id = j'.id → t = t' := by
  obtain ⟨w, hw, hp⟩ := Run.Steps.exists_of_checked (@World.step .sample) sweepsNoHeldRow .empty
    sampleSend (fun w => ⟨7⟩ ∈ w.heldIds 0 ∧ Obs.providerCall 0 0 ⟨7⟩ 1 ∈ w.log) (by decide)
  have hp := of_decide_eq_true hp
  exact ⟨w, hw, hp.1, hp.2, (@single_holder w .sample _ _ World.initial_empty hw).1⟩

theorem run_refines_pool_sampleSend :
    ∃ w es, Run.Steps (fun s e => some (s.apply e)) Lease.State.Enabled World.empty.leases es
      (World.leases w) ∧ List.Forall₂ (fun a e => e = .wipe → ∃ p, a = .sweep p) sampleSend es := by
  obtain ⟨w, hw, -⟩ := Run.Steps.exists_of_exec (@World.step .sample) .empty sampleSend
    (fun _ => true) (by decide)
  exact ⟨w, @run_refines_pool _ _ .sample _ World.initial_empty hw⟩

/-- The first leader claims a message and loses its lock's session; the second sweeps and claims it
again. -/
def lostSession : List Act :=
  [Act.startDispatcher .sample, .startDispatcher .sample, .openContext] ++ Act.elect 0 ++
    Act.accept 2 (.sample ⟨7⟩ "k") ++ [Act.task 0 {}] ++ Act.claimRow 0 ⟨7⟩ ++
    [Act.dropSession] ++ Act.elect 1 ++ [Act.task 1 {}] ++ Act.claimRow 1 ⟨7⟩

/-- Without the condition two tasks hold one row. -/
theorem two_holders_lostSession :
    ¬ ∀ (w0 w : World) (as : List Act), w0.Initial →
      Run.Steps (@World.step .sample) Run.Any w0 as w →
      (∀ t t' j j', w.Holds t j → w.Holds t' j' → j.id = j'.id → t = t') ∧
        ∀ p p' t t' id attempts, .providerCall p t id attempts ∈ w.log →
          .providerCall p' t' id attempts ∈ w.log → t = t' := by
  intro h
  obtain ⟨w, hw, hp⟩ := Run.Steps.exists_of_exec (@World.step .sample) .empty lostSession
    (fun w => ⟨7⟩ ∈ w.heldIds 0 ∧ ⟨7⟩ ∈ w.heldIds 1) (by decide)
  have hp := of_decide_eq_true hp
  obtain ⟨j, hj, hid⟩ := mem_heldIds.1 hp.1
  obtain ⟨j', hj', hid'⟩ := mem_heldIds.1 hp.2
  exact absurd ((h _ w _ World.initial_empty hw).1 0 1 j j' hj hj' (hid.trans hid'.symm))
    Nat.zero_ne_one

/-! ## Some holder of a leased row -/

/-- Some queued row of a message is leased. -/
def World.isLeased (w : World) (id : Uuid) : Bool :=
  w.db.outbox.rows.any fun r => r.commsRequestId = id && r.leasedUntil.isSome

/-- A condition: no process ends while a task of it holds a leased row, no reply of a claim
that leased rows is lost, and no stage of a pass over a leased row meets a fault. -/
def nothingFails (w : World) : Act → Bool
  | .crash h => w.tasks.all fun task => task.owner ≠ h ||
      task.pc.jobs.rows.all fun job => !w.isLeased job.id
  | .task t env => w.tasks[t]?.all fun task =>
    match task.pc with
    | .claiming _ _ => env.reply ≠ .lost || env.pick.ids = []
    | .working jobs => jobs.rows.head?.all fun job =>
        env.faultless job.stage || !w.isLeased job.id
    | _ => true
  | _ => true

section
variable {w w' : World} {a : Act}

theorem isLeased_of_mem {id : Uuid} (h : id ∈ w.leases.leased) : w.isLeased id = true := by
  obtain ⟨r, hr, rfl, hl⟩ := h
  exact any_eq_true.2 ⟨r, hr, by simp [Option.isSome_iff_ne_none.2 hl]⟩

/-- A step in which nothing fails does not let go of a leased row. -/
theorem not_strands (hs : w.Sound) (hc : nothingFails w a = true) {e : Event Uuid Nat}
    (hx : Explains w a e) : ¬ w.leases.Strands e := by
  intro hst
  cases e with
  | orphan g =>
    obtain ⟨t, env, task, leasedUntil, exclusion, rfl, ht, hpc, hr, rfl⟩ := hx
    obtain ⟨id, hid⟩ := hst
    have hnil : env.pick.ids = [] := by simpa [nothingFails, ht, hpc, hr] using hc
    exact ne_nil_of_mem hid hnil
  | drop d =>
    obtain ⟨h, rfl, rfl⟩ := hx
    obtain ⟨t, ⟨task, ht, howner⟩, id, ⟨job, ⟨task', ht', hjob⟩, rfl⟩, hl⟩ := hst
    obtain rfl : task = task' := Option.some.inj (ht.symm.trans ht')
    have := all_eq_true.1 hc task (mem_of_getElem? ht)
    simp only [howner, ne_eq, not_true_eq_false, decide_false, Bool.false_or] at this
    have := all_eq_true.1 this job hjob
    rw [isLeased_of_mem hl] at this
    cases this
  | abandon t id =>
    obtain ⟨env, task, job, cfg, err, rfl, ht, hhead, rfl, hend, hout⟩ := hx
    have hjob : w.Holds t job := ⟨task, ht, mem_of_mem_head? hhead⟩
    have hf : env.faultless job.stage = true := by
      cases hpc : task.pc with
      | working jobs =>
        rw [hpc] at hhead
        simpa [nothingFails, ht, hpc, show jobs.rows.head? = some job from hhead,
          isLeased_of_mem hst] using hc
      | _ => rw [hpc] at hhead; cases hhead
    obtain ⟨r, hr, hid, hl⟩ := hst
    rcases error_of_faultless hf hend hout hr hid hl with hnone | ⟨destination, hstage⟩
    · -- the request of a row that a task holds is in the ledger
      obtain ⟨q, hq, hqid, hqc⟩ := hs.held hjob
      have := find?_none (Option.map_eq_none_iff.1 hnone) hq
      exact this (Prod.ext hqc hqid)
    · -- a request without a payload is settled, and its row not queued
      exact hs.db.agrees.ne_of_settled (hs.read hjob hstage) hr hid
  | _ => exact hst

/-- A step in which nothing fails keeps leased rows held. -/
theorem covered_step (h : w.leases.Covered) (hs : w.Sound) (hq : QueueStep w a w')
    (hc : nothingFails w a = true) : w'.leases.Covered := by
  obtain ⟨e, -, heq, hx⟩ := step_lease hs hq
  rw [heq]
  exact h.apply (not_strands hs hc hx)

/-- The sweep of a new leader leaves no lease. -/
theorem covered_sweep [UuidCrate] {p : Nat} (hs : w.step (.sweep p) = some w') :
    w'.leases.Covered := by
  cases step_cases hs with
  | swept alive dispatcher phase =>
    intro id hid
    rw [World.leases, leased_clearStaleLeases] at hid
    exact absurd hid (Set.notMem_empty id)
  | refresh alive step => cases step

variable [UuidCrate]

/-- From the sweep of a leader on, in every run without a fault between a claim and the write that
ends its row, every leased row of the queue is held by a task. -/
theorem leased_rows_are_held {w0 w1 w2 : World} {as bs : List Act} {p : Nat} (h0 : w0.Initial)
    (h1 : Run.Steps World.step Run.Any w0 as w1) (hs : w1.step (.sweep p) = some w2)
    (h : Run.Steps World.step (nothingFails · ·) w2 bs w) :
    ∀ r ∈ w.db.outbox, r.leasedUntil ≠ none → ∃ t j, w.Holds t j ∧ j.id = r.commsRequestId := by
  have hs1 : w1.Sound := h1.inv (fun _ _ _ _ hs h => h.of_step hs) h0.sound
  have hcov : w.leases.Covered :=
    h.inv_of (J := World.Sound) (I := fun w => w.leases.Covered)
      (fun _ _ _ _ hs h => h.of_step hs)
      (fun _ _ _ hc hs hsound h => covered_step h hsound (queueStep_of_step hs) hc)
      (hs1.of_step hs) (covered_sweep hs)
  intro r hr hl
  obtain ⟨t, j, hj, hid⟩ := hcov r.commsRequestId ⟨r, hr, rfl, hl⟩
  exact ⟨t, j, hj, hid⟩

end

/-- A dispatcher has been elected. -/
def sampleElection : List Act := [.startDispatcher .sample, .openContext, .tryLock 0]

/-- The dispatcher claims a message that was accepted. -/
def sampleClaim : List Act :=
  [Act.lead 0] ++ Act.accept 1 (.sample ⟨7⟩ "k") ++ [Act.task 0 {}] ++ Act.claimRow 0 ⟨7⟩

/-- One row, claimed after the sweep. -/
theorem leased_rows_are_held_sampleClaim :
    ∃ w1 w2 w, Run.Steps (@World.step .sample) Run.Any .empty sampleElection w1 ∧
      @World.step .sample w1 (.sweep 0) = some w2 ∧
      Run.Steps (@World.step .sample) (nothingFails · ·) w2 sampleClaim w ∧
      (∃ r ∈ w.db.outbox, r.leasedUntil ≠ none) ∧
      ∀ r ∈ w.db.outbox, r.leasedUntil ≠ none → ∃ t j, w.Holds t j ∧ j.id = r.commsRequestId := by
  obtain ⟨w1, h1, hp⟩ := Run.Steps.exists_of_exec (@World.step .sample) .empty sampleElection
    (fun w1 => (@World.step .sample w1 (.sweep 0)).any fun w2 =>
      (Run.exec (fun w a => if nothingFails w a then @World.step .sample w a else none) w2
        sampleClaim).any fun w => w.db.outbox.rows.any (·.leasedUntil.isSome)) (by decide)
  obtain ⟨w2, h2, hp⟩ := (Option.any_eq_true _ _).1 hp
  obtain ⟨w, hw, hp⟩ := Run.Steps.exists_of_checked _ nothingFails w2 sampleClaim _ hp
  obtain ⟨r, hr, hl⟩ := List.any_eq_true.1 hp
  exact ⟨w1, w2, w, h1, h2, hw, ⟨r, hr, Option.isSome_iff_ne_none.1 hl⟩,
    @leased_rows_are_held w .sample _ _ _ _ _ _ World.initial_empty h1 h2 hw⟩

/-- A condition on steps that allows every fault inside a pass: the leader does not end, no other
dispatcher starts, and statements either take effect or fail. -/
def oneLeader (_ : World) : Act → Bool
  | .crash _ | .startDispatcher _ => false
  | .task _ env => env.reply ≠ .lost
  | _ => true

/-- The read of the suppression list fails for the row that was claimed. -/
def failedRead : List Act := sampleClaim ++ [Act.task 0 {}, .task 0 { reply := .failed }]

/-- With a fault inside a pass its row stays leased and nobody holds it. -/
theorem stranded_failedRead :
    ¬ ∀ (w0 w1 w2 w : World) (as bs : List Act) (p : Nat), w0.Initial →
      Run.Steps (@World.step .sample) Run.Any w0 as w1 →
      @World.step .sample w1 (.sweep p) = some w2 →
      Run.Steps (@World.step .sample) (oneLeader · ·) w2 bs w →
      ∀ r ∈ w.db.outbox, r.leasedUntil ≠ none → ∃ t j, w.Holds t j ∧ j.id = r.commsRequestId := by
  intro h
  obtain ⟨w1, h1, hp⟩ := Run.Steps.exists_of_exec (@World.step .sample) .empty sampleElection
    (fun w1 => (@World.step .sample w1 (.sweep 0)).any fun w2 =>
      (Run.exec (fun w a => if oneLeader w a then @World.step .sample w a else none) w2
        failedRead).any fun w => w.db.outbox.rows.any (·.leasedUntil.isSome) &&
          w.tasks.all fun task => task.pc.jobs.rows.isEmpty) (by decide)
  obtain ⟨w2, h2, hp⟩ := (Option.any_eq_true _ _).1 hp
  obtain ⟨w, hw, hp⟩ := Run.Steps.exists_of_checked _ oneLeader w2 failedRead _ hp
  obtain ⟨hl, hno⟩ := Bool.and_eq_true_iff.1 hp
  obtain ⟨r, hr, hl⟩ := List.any_eq_true.1 hl
  obtain ⟨t, j, ⟨task, ht, hj⟩, -⟩ :=
    h _ w1 w2 w _ _ 0 World.initial_empty h1 h2 hw r hr (Option.isSome_iff_ne_none.1 hl)
  have := List.all_eq_true.1 hno task (List.mem_of_getElem? ht)
  rw [Table.mem_def, List.isEmpty_iff.1 this] at hj
  cases hj

end Messgr
