import Messgr.Dispatcher.Drains

/-!
# How long a drain runs

A drain claims until a claim comes back empty, and what arrives while it runs joins its backlog.
`drain_ends` bounds its claims and its steps by the rows that were there and those that came later,
and says that a drain that has not ended can go on; `exists_of_gained` says which steps add rows.
The later rows cannot be left out: while there are ids for new messages, one that arrives in every
round keeps a drain with a backlog of one row from ending (`drain_claims_unbounded`).
-/

namespace Messgr

open List Option Table Nat World Next

/-! ## The measure -/

/-- An upper bound on the steps that a pass takes from a stage on. -/
def Stage.rank : Stage → Nat
  | .expiry => 13
  | .suppression => 12
  | .verification => 11
  | .unverified => 10
  | .consent => 9
  | .quota => 8
  | .quietHours => 7
  | .ciphertexts => 6
  | .decrypt _ _ => 5
  | .cancellation => 4
  | .send => 3
  | .sending => 2
  | .terminal _ _ _ | .reschedule _ => 1
  | .bounded _ attempt => 1 + (maxWriteTerminalAttempts - attempt)

/-- The same for a batch. -/
def Jobs.rank (jobs : Jobs) : Nat := jobs.rows.foldr (fun job n => job.stage.rank + n) 0

/-- The steps that a drain takes until its next claim, or to its end. -/
def Pc.rank : Pc → Nat
  | .working jobs => 3 + Jobs.rank jobs
  | .ready | .delaying _ _ => 2
  | .claiming _ _ => 1
  | _ => 0

section
variable {cfg : Config} {db : TenantDb} {row : OutboxRow} {env : Env} {stage stage' : Stage}

theorem Stage.one_le_rank (stage : Stage) : 1 ≤ stage.rank := by
  cases stage <;> simp [Stage.rank]

theorem Stage.rank_firstStage (kind : TaskKind) (clock : Time) (row : OutboxRow) :
    (kind.firstStage clock row).rank ≤ 13 := by
  rcases @firstStage_cases kind clock row with h | ⟨write, h⟩ <;>
    simp [h, Stage.rank, maxWriteTerminalAttempts]

theorem Next.read_eq_goto {α : Type*} {reply : Reply} {value : α} {k : α → Next}
    (h : Next.read reply value k = .goto stage) : k value = .goto stage := by
  cases reply with
  | ok => exact h
  | failed => cases h
  | lost => cases h

theorem Next.write_ne_goto {reply : Reply} {db' : TenantDb} :
    (Next.write reply db db').1 ≠ .goto stage := by
  cases reply <;> exact Next.noConfusion

/-- Every step of a pass that does not end it brings its end nearer. -/
theorem rank_tryProcess (h : (tryProcess cfg db row env stage).1 = .goto stage') :
    stage'.rank < stage.rank := by
  cases stage with
  | expiry =>
    simp only [tryProcess] at h
    split at h <;> cases h <;> decide
  | suppression | cancellation | ciphertexts =>
    have h := read_eq_goto h
    split at h <;> cases h <;> simp [Stage.rank]
  | verification | consent | quietHours =>
    simp only [tryProcess] at h
    split at h
    · have h := read_eq_goto h
      (repeat' split at h) <;> cases h <;> simp [Stage.rank]
    · cases h
      decide
  | unverified =>
    simp only [tryProcess] at h
    cases hr : env.reply <;> rw [hr] at h <;> cases h
    decide
  | quota =>
    simp only [tryProcess] at h
    cases hq : env.quota <;> rw [hq] at h <;> cases h <;> simp [Stage.rank]
  | decrypt destination payload =>
    simp only [tryProcess] at h
    split at h
    · cases h
    · split at h <;> cases h
      simp [Stage.rank]
  | send =>
    cases h
    decide
  | sending =>
    simp only [tryProcess] at h
    split at h
    · cases h
      simp [Stage.rank]
    · split at h <;> cases h <;> simp [Stage.rank]
  | terminal | reschedule => exact absurd h write_ne_goto
  | bounded write attempt =>
    have hfailed : (if attempt < maxWriteTerminalAttempts then .goto (.bounded write (attempt + 1))
        else .databaseError : Next) = .goto stage' →
        stage'.rank < (Stage.bounded write attempt).rank := by
      intro h
      split at h
      · cases h
        simp only [Stage.rank]
        omega
      · cases h
    simp only [tryProcess] at h
    cases hr : env.reply <;> rw [hr] at h
    · cases h
    · exact hfailed h
    · exact hfailed h

end

section
variable {jobs : Jobs} {job : Job} {rest : List Job}

/-- A step of a pass brings the end of the batch nearer. -/
theorem rank_nextJobs (head : jobs.rows = job :: rest) {cfg : Config} {db : TenantDb} {env : Env} :
    Jobs.rank ((tryProcess cfg db job.row env job.stage).1.jobs jobs job) < Jobs.rank jobs := by
  rw [Jobs.rank, Jobs.rank, rows_nextJobs head, head]
  cases h : (tryProcess cfg db job.row env job.stage).1 with
  | goto stage =>
    have := rank_tryProcess h
    simp only [foldr_cons]
    omega
  | ended result =>
    have := job.stage.one_le_rank
    simp only [foldr_cons]
    omega

/-- A batch that was just claimed. -/
theorem rank_batch (kind : TaskKind) (clock : Time) (rows : OutboxRows) :
    Jobs.rank (kind.batch clock rows) ≤ 13 * rows.rows.length := by
  show (rows.rows.map _).foldr _ 0 ≤ _
  generalize rows.rows = l
  induction l with
  | nil => simp
  | cons r l ih =>
    have := Stage.rank_firstStage kind clock r
    simp only [map_cons, foldr_cons, length_cons] at ih ⊢
    omega

end

/-! ## The steps of a drain -/

section
variable [UuidCrate]

/-- A row for a drain: on its channel, not leased, matched by its switch, due or not. -/
def OutboxRow.forDrain (r : OutboxRow) (channel : String) (s : KillSwitch) : Bool :=
  r.channel = channel && r.leasedUntil.isNone && s.matchesRow r

/-- How many rows there are for a drain. -/
def TenantDb.backlog (db : TenantDb) (channel : String) (s : KillSwitch) : Nat :=
  db.outbox.rows.countP (·.forDrain channel s)

theorem OutboxRow.forDrain_iff {r : OutboxRow} {channel : String} {s : KillSwitch} :
    r.forDrain channel s = true ↔
      r.channel = channel ∧ r.leasedUntil = none ∧ s.matchesRow r = true := by
  simp [OutboxRow.forDrain, and_assoc]

/-- What a step of a drain does with the place it stands at and with the backlog. -/
inductive DrainStep (channel : String) (s : KillSwitch) (db db' : TenantDb) : Pc → Pc → Prop
  | prepared {pc : Pc} {leasedUntil : Time} {e : ChannelExclusion} (rank : pc.rank = 2)
      (same : db' = db) : DrainStep channel s db db' pc (.claiming leasedUntil e)
  | failed {leasedUntil : Time} {e : ChannelExclusion}
      (backlog : db'.backlog channel s ≤ db.backlog channel s) :
      DrainStep channel s db db' (.claiming leasedUntil e) .ready
  | ended {leasedUntil : Time} {e : ChannelExclusion}
      (backlog : db'.backlog channel s ≤ db.backlog channel s) :
      DrainStep channel s db db' (.claiming leasedUntil e) .ended
  | claimed {leasedUntil : Time} {e : ChannelExclusion} {clock : Time}
      {rows : OutboxRows} (ne : rows.rows ≠ [])
      (backlog : db'.backlog channel s + rows.rows.length ≤ db.backlog channel s) :
      DrainStep channel s db db' (.claiming leasedUntil e)
        (.working ((TaskKind.drain channel s).batch clock rows))
  | batchDone {jobs : Jobs} (same : db' = db) : DrainStep channel s db db' (.working jobs) .ready
  | passed {jobs jobs' : Jobs} (rank : Jobs.rank jobs' < Jobs.rank jobs) :
      DrainStep channel s db db' (.working jobs) (.working jobs')

variable {w w' : World} {i p : Nat} {env : Env} {channel : String} {s : KillSwitch} {pc : Pc}

/-- A claim of a drain takes rows out of the backlog. -/
theorem backlog_of_query {cfg : Config} {db db' : TenantDb} {leasedUntil : Time}
    {e : ChannelExclusion} {rows : OutboxRows}
    (h : (TaskKind.drain channel s).query cfg db env leasedUntil e = some (rows, db')) :
    db'.backlog channel s + rows.rows.length ≤ db.backlog channel s := by
  have hc : Claimed db _ leasedUntil env.pick.ids rows db' := claimForScope_spec h
  refine countP_add_length_le (fun r hr hd => ?_) fun r hr => ?_
  · rw [hc.db] at hr
    rcases mem_lease.1 hr with ⟨hr, hid⟩ | ⟨r0, -, -, rfl⟩
    · refine ⟨fun b hb heq => hid ?_, r, hr, hd, rfl⟩
      obtain ⟨r0, -, hid0, rfl⟩ := (hc.mem_rows b).1 hb
      exact heq ▸ hid0
    · cases (OutboxRow.forDrain_iff.1 hd).2.1
  · obtain ⟨r0, hr0, he, rfl⟩ := hc.eligible_of_mem hr
    obtain ⟨-, hlease, hch, hm, -⟩ := claimForScopeEligible_iff.1 he
    exact ⟨r0, hr0, OutboxRow.forDrain_iff.2 ⟨hch channel rfl, hlease, hm⟩, rfl⟩

/-- Every step of a drain is one of these. -/
theorem drainStep_of_taskStep (hs : w.TaskStep i env w') (ht : w.DrainAt i p channel s pc) :
    ∃ pc', w'.DrainAt i p channel s pc' ∧ DrainStep channel s w.db w'.db pc pc' := by
  have hlt : i < w.tasks.length := (List.getElem?_eq_some_iff.1 ht).1
  cases hs with
  | @looped task _ _ pc' runs loop =>
    cases ht.symm.trans runs.lookup
    refine ⟨pc', getElem?_set_self hlt, ?_⟩
    cases pc <;> cases loop <;> exact .prepared rfl rfl
  | failed runs pc =>
    cases ht.symm.trans runs.lookup
    cases pc
    exact ⟨_, getElem?_set_self hlt, .failed le_rfl⟩
  | lost runs pc reply query =>
    cases ht.symm.trans runs.lookup
    cases pc
    exact ⟨_, getElem?_set_self hlt, .failed (le_of_add_right_le (backlog_of_query query))⟩
  | @claimed _ _ _ _ _ rows _ runs pc reply query =>
    cases ht.symm.trans runs.lookup
    cases pc
    refine ⟨_, getElem?_set_self hlt, ?_⟩
    have hb := backlog_of_query query
    show DrainStep channel s w.db _ _ (if _ then _ else _)
    split
    · exact .ended (le_of_add_right_le hb)
    · next hne => exact .claimed (by simpa using hne) hb
  | batchDone runs pc empty =>
    cases ht.symm.trans runs.lookup
    cases pc
    exact ⟨_, getElem?_set_self hlt, .batchDone rfl⟩
  | passed runs pc head =>
    cases ht.symm.trans runs.lookup
    cases pc
    exact ⟨_, getElem?_set_self hlt, .passed (rank_nextJobs head)⟩
  | spawned runs kind | drained runs kind =>
    cases ht.symm.trans runs.lookup
    cases kind

theorem drainStep_of_step (hs : w.step (.task i env) = some w') (ht : w.DrainAt i p channel s pc) :
    ∃ pc', w'.DrainAt i p channel s pc' ∧ DrainStep channel s w.db w'.db pc pc' := by
  cases step_cases hs with
  | refresh alive step => cases step
  | task hstep => exact drainStep_of_taskStep hstep ht

/-! ## Counting -/

/-- How many rows a step adds to the backlog. -/
def gained (channel : String) (s : KillSwitch) (w w' : World) : Nat :=
  w'.db.backlog channel s - w.db.backlog channel s

/-- Counts the claims of a task that return a row. -/
def nonEmptyClaim (i : Nat) (w w' : World) : Nat :=
  if (w.tasks[i]?.any (·.pc matches .claiming _ _)) && w'.tasks[i]?.any (·.pc matches .working _)
  then 1 else 0

/-- Counts the claims of a task that fail. -/
def failedClaim (i : Nat) (w w' : World) : Nat :=
  if (w.tasks[i]?.any (·.pc matches .claiming _ _)) && w'.tasks[i]?.any (·.pc matches .ready)
  then 1 else 0

/-- Counts the steps of a task. -/
def ownStep (i : Nat) (_ : World) (a : Act) (_ : World) : Nat :=
  match a with
  | .task t _ => if t = i then 1 else 0
  | _ => 0

/-- The steps that a drain has left: those until its next claim, and for every row of its backlog
those of its pass and of a round. -/
def stepsLeft (i : Nat) (channel : String) (s : KillSwitch) (w : World) : Nat :=
  (w.tasks[i]?.map (·.pc.rank)).getD 0 + 16 * w.db.backlog channel s

variable {a : Act}

/-- A drain stays where it is while others move, unless its process ends. -/
theorem drain_of_step (hs : w.Step a w') (ha : ∀ env, a ≠ .task i env)
    (ht : w.DrainAt i p channel s pc) :
    w'.DrainAt i p channel s pc ∨ w'.DrainAt i p channel s .ended := by
  rcases task_of_step hs ht with h | ⟨-, h⟩ | ⟨env, rfl, -⟩
  · exact .inl h
  · exact .inr h
  · exact absurd rfl (ha env)

/-- What a step costs a drain. -/
theorem drain_pays (hs : w.step a = some w') (ht : w.DrainAt i p channel s pc) :
    nonEmptyClaim i w w' + w'.db.backlog channel s ≤
        w.db.backlog channel s + gained channel s w w' ∧
      ownStep i w a w' + stepsLeft i channel s w' ≤ stepsLeft i channel s w +
        (16 * gained channel s w w' + 2 * failedClaim i w w') := by
  by_cases ha : ∃ env, a = .task i env
  · obtain ⟨env, rfl⟩ := ha
    obtain ⟨pc', ht', hd⟩ := drainStep_of_step hs ht
    simp only [nonEmptyClaim, failedClaim, ownStep, stepsLeft, gained, ht, ht', any_some,
      map_some, getD_some, if_true]
    cases hd with
    | prepared rank same =>
      rw [rank, same]
      simp only [Pc.rank, Bool.and_false, Bool.false_eq_true, if_false]
      omega
    | failed backlog | ended backlog =>
      simp only [Pc.rank, Bool.and_false, Bool.and_self, Bool.false_eq_true, if_false, if_true]
      omega
    | @claimed _ _ clock rows ne backlog =>
      have h1 := rank_batch (.drain channel s) clock rows
      have h2 := length_pos_iff.2 ne
      simp only [Pc.rank, Bool.and_false, Bool.and_self, Bool.false_eq_true, if_false, if_true]
      omega
    | batchDone same =>
      simp only [same, Pc.rank, Bool.false_and, Bool.false_eq_true, if_false]
      omega
    | passed rank =>
      simp only [Pc.rank, Bool.false_and, Bool.false_eq_true, if_false]
      omega
  · have hown : ownStep i w a w' = 0 := by
      cases a with
      | task t env =>
        have hne : t ≠ i := fun h => ha ⟨env, by rw [h]⟩
        simp [ownStep, hne]
      | _ => rfl
    -- the drain stands where it stood, or has ended
    have hno : nonEmptyClaim i w w' = 0 ∧ failedClaim i w w' = 0 ∧
        (w'.tasks[i]?.map (·.pc.rank)).getD 0 ≤ pc.rank := by
      rcases drain_of_step (step_cases hs) (fun env h => ha ⟨env, h⟩) ht with ht' | ht'
      · cases pc <;> simp [nonEmptyClaim, failedClaim, ht, ht']
      · simp [nonEmptyClaim, failedClaim, ht', Pc.rank]
    rw [hown, hno.1, hno.2.1]
    simp only [stepsLeft, gained, ht, map_some, getD_some]
    omega

/-! ## The end of a drain -/

/-- A step that a drain can make is one of the system. -/
theorem step_of_move {host : Host} {d : Dispatcher} {m : Moved}
    (runs : w.Runs i ⟨p, .drain channel s, pc⟩ host d)
    (hm : Task.move ⟨p, .drain channel s, pc⟩ i host.cache d w.db env = some m) :
    w.step (.task i env) = some (w.moved i ⟨p, .drain channel s, pc⟩ m) := by
  simp [World.step, World.taskStep, runs.lookup, runs.alive, runs.dispatcher, hm]

/-- A drain with steps left can take one, whatever the clocks and gates answer, when its statement
succeeds. -/
theorem exists_drain_step {host : Host} {d : Dispatcher}
    (runs : w.Runs i ⟨p, .drain channel s, pc⟩ host d) (hpc : pc.rank ≠ 0) (env : Env)
    (hreply : env.reply = .ok) :
    ∃ (pick : Pick) (w' : World), pick.locked = [] ∧
      w.step (.task i { env with pick := pick }) = some w' := by
  cases pc with
  | start | snapshot | awaiting | ended => exact absurd rfl hpc
  | ready | delaying => exact ⟨.nothing, _, rfl, step_of_move runs rfl⟩
  | working jobs =>
    obtain ⟨m, hm⟩ : ∃ m, Task.move ⟨p, .drain channel s, .working jobs⟩ i host.cache d w.db
        { env with pick := .nothing } = some m := by
      simp only [Task.move]
      split <;> exact ⟨_, rfl⟩
    exact ⟨.nothing, _, rfl, step_of_move runs hm⟩
  | claiming leasedUntil e =>
    obtain ⟨pick, rows, db', hlocked, hq⟩ := exists_claimForScope w.db env.now (some channel) s
      d.cfg.releaseRate leasedUntil e
    exact ⟨pick, _, hlocked, step_of_move runs (by
      simp only [Task.move, Task.claimStep, hreply, TaskKind.query, hq, bind_eq_bind, bind_some]
      rfl)⟩

/-- A drain stands at one of its own places. -/
def Drains (i p : Nat) (channel : String) (s : KillSwitch) (w : World) : Prop :=
  ∃ pc, w.tasks[i]? = some ⟨p, .drain channel s, pc⟩ ∧ (pc = .ended ∨ pc.rank ≠ 0)

/-- Every step keeps a drain at its own places. -/
theorem drains_step (hs : w.step a = some w') (h : Drains i p channel s w) :
    Drains i p channel s w' := by
  obtain ⟨pc, ht, hpc⟩ := h
  by_cases ha : ∃ env, a = .task i env
  · obtain ⟨env, rfl⟩ := ha
    obtain ⟨pc', ht', hd⟩ := drainStep_of_step hs ht
    refine ⟨pc', ht', ?_⟩
    cases hd with
    | ended => exact .inl rfl
    | _ => exact .inr (by simp [Pc.rank])
  · rcases drain_of_step (step_cases hs) (fun env h => ha ⟨env, h⟩) ht with ht' | ht'
    · exact ⟨pc, ht', hpc⟩
    · exact ⟨.ended, ht', .inl rfl⟩

/-- From the moment it is spawned a drain makes no more non-empty claims than there are rows for it
then and come later, and takes no more than sixteen steps for each of them and two for every claim
that fails; until it has ended it can go on, while its process runs. -/
theorem drain_ends {w1 w2 : World} {as : List Act}
    (ht : w1.tasks[i]? = some ⟨p, .drain channel s, .ready⟩)
    (h : Run.Steps World.step Run.Any w1 as w2) :
    Run.total World.step (fun w _ => nonEmptyClaim i w) w1 as + w2.db.backlog channel s ≤
      w1.db.backlog channel s + Run.total World.step (fun w _ => gained channel s w) w1 as ∧
    Run.total World.step (ownStep i) w1 as ≤
      2 + 16 * (w1.db.backlog channel s +
          Run.total World.step (fun w _ => gained channel s w) w1 as) +
        2 * Run.total World.step (fun w _ => failedClaim i w) w1 as ∧
    ∃ pc, w2.tasks[i]? = some ⟨p, .drain channel s, pc⟩ ∧ (pc = .ended ∨
      ∀ host d, w2.host? p = some host → host.dispatcher = some d →
        ∀ env : Env, env.reply = .ok → ∃ (pick : Pick) (w3 : World), pick.locked = [] ∧
          w2.step (.task i { env with pick := pick }) = some w3) := by
  have h0 : Drains i p channel s w1 := ⟨.ready, ht, .inr (by decide)⟩
  have hkeep : ∀ w a w', Run.Any w a → w.step a = some w' → Drains i p channel s w →
      Drains i p channel s w' := fun w a w' _ hs h => drains_step hs h
  have hclaims :
      Run.total World.step (fun w _ => nonEmptyClaim i w) w1 as + w2.db.backlog channel s ≤
      w1.db.backlog channel s + Run.total World.step (fun w _ => gained channel s w) w1 as := by
    refine h.total_le (Φ := fun w => w.db.backlog channel s) hkeep (fun w a w' _ hs hd => ?_) h0
    obtain ⟨pc, ht, -⟩ := hd
    exact (drain_pays hs ht).1
  have hsteps : Run.total World.step (ownStep i) w1 as + stepsLeft i channel s w2 ≤
      stepsLeft i channel s w1 + (16 * Run.total World.step (fun w _ => gained channel s w) w1 as +
        2 * Run.total World.step (fun w _ => failedClaim i w) w1 as) := by
    rw [← h.total_linear]
    refine h.total_le hkeep (fun w a w' _ hs hd => ?_) h0
    obtain ⟨pc, ht, -⟩ := hd
    exact (drain_pays hs ht).2
  have hleft : stepsLeft i channel s w1 = 2 + 16 * w1.db.backlog channel s := by
    simp [stepsLeft, ht, Pc.rank]
  obtain ⟨pc, ht2, hpc⟩ := h.inv hkeep h0
  refine ⟨hclaims, by omega, pc, ht2, ?_⟩
  rcases hpc with hpc | hpc
  · exact .inl hpc
  · exact .inr fun host d hh hd env hr => exists_drain_step ⟨ht2, hh, hd⟩ hpc env hr

/-- A step adds to no backlog if what is queued and not leased after it was so before. -/
theorem gained_eq_zero (h : ∀ r ∈ w'.db.outbox, r.leasedUntil = none → ∃ r0 ∈ w.db.outbox,
      r0.leasedUntil = none ∧ r0.commsRequestId = r.commsRequestId ∧ r0.channel = r.channel ∧
        s.matchesRow r0 = s.matchesRow r) : gained channel s w w' = 0 := by
  refine Nat.sub_eq_zero_of_le (countP_add_length_le (u := ∅) (fun r hr hd => ?_) ?_)
  · obtain ⟨hch, hlease, hm⟩ := OutboxRow.forDrain_iff.1 hd
    obtain ⟨r0, hr0, hlease0, hid, hch0, hm0⟩ := h r hr hlease
    exact ⟨fun b hb => absurd hb (not_mem_empty b), r0, hr0,
      OutboxRow.forDrain_iff.2 ⟨hch0.trans hch, hlease0, hm0.trans hm⟩, hid⟩
  · exact fun b hb => absurd hb (not_mem_empty b)

/-- What adds to a backlog: a new message, a row that a pass puts back, and the sweep of a new
leader. -/
theorem exists_of_gained (hs : w.step a = some w') (h : gained channel s w w' ≠ 0) :
    (∃ now c, a = .insert now c) ∨ (∃ q, a = .sweep q) ∨
      ∃ t env j nextAttemptAt, a = .task t env ∧ w.Holds t j ∧
        j.stage = .reschedule nextAttemptAt := by
  have hsub : (∀ r ∈ w'.db.outbox, r.leasedUntil = none → r ∈ w.db.outbox) →
      gained channel s w w' = 0 :=
    fun h => gained_eq_zero fun r hr hl => ⟨r, h r hr hl, hl, rfl, rfl, rfl⟩
  have hclaim : ∀ {eligible leasedUntil ids rows},
      Claimed w.db eligible leasedUntil ids rows w'.db → gained channel s w w' = 0 := by
    intro eligible leasedUntil ids rows hc
    refine hsub fun r hr hl => ?_
    rw [hc.db] at hr
    rcases mem_lease.1 hr with ⟨hr, -⟩ | ⟨r0, -, -, rfl⟩
    · exact hr
    · cases hl
  cases queueStep_of_step hs with
  | frame outbox => exact absurd (hsub fun r hr _ => outbox ▸ hr) h
  | inserted => exact .inl ⟨_, _, rfl⟩
  | cancelled found db =>
    refine absurd (gained_eq_zero fun r hr hl => ?_) h
    rw [db] at hr
    rcases mem_cancelOutbox.1 hr with ⟨hr, -⟩ | ⟨r0, hr0, -, rfl⟩
    · exact ⟨r, hr, hl, rfl, rfl, rfl⟩
    · exact ⟨r0, hr0, hl, rfl, rfl, rfl⟩
  | wasCancelled found db | crashed db => exact absurd (hsub fun r hr _ => db ▸ hr) h
  | swept => exact .inr (.inl ⟨_, rfl⟩)
  | lost lookup pc reply unleased claimed | claimed lookup unleased claimed =>
    exact absurd (hclaim claimed) h
  | @passed t env cfg task job _ lookup head db =>
    have hheld : w.Holds t job := ⟨task, lookup, mem_of_head? head⟩
    have hpass := @tryProcess_passStep cfg w.db job.row env job.stage
    rw [← db] at hpass
    generalize hdb : w'.db = db' at hpass
    generalize hstage : job.stage = stage at hpass
    generalize (tryProcess cfg w.db job.row env stage).1 = next at hpass
    cases hpass with
    | goto | gaveUp => exact absurd (hsub fun r hr _ => hdb ▸ hr) h
    | recorded result =>
      exact absurd (hsub fun r hr _ => by simpa [hdb, recordEvent] using hr) h
    | wrote | bounded =>
      exact absurd (hsub fun r hr _ => (mem_writeTerminal.1 (hdb ▸ hr)).1) h
    | rescheduled => exact .inr (.inr ⟨t, env, job, _, rfl, hheld, hstage⟩)

end

theorem exists_of_gained_accepted : ∃ (w w' : World) (a : Act), @World.step .sample w a = some w' ∧
    @gained .sample "sms" (.sample ⟨9⟩) w w' = 1 ∧
      ((∃ now c, a = .insert now c) ∨ (∃ q, a = .sweep q) ∨
        ∃ t env j n, a = .task t env ∧ w.Holds t j ∧ j.stage = .reschedule n) := by
  obtain ⟨w, -, hp⟩ := Run.Steps.exists_of_exec (@World.step .sample) .empty
    [.openContext, .createComms 0 (.sample ⟨7⟩ "k")] (fun w => (@World.step .sample w
      (.insert 0 (.sample ⟨7⟩ "k"))).any (@gained .sample "sms" (.sample ⟨9⟩) w · = 1))
    (by decide)
  obtain ⟨w', hs, hg⟩ := (any_eq_true _ _).1 hp
  have hg := of_decide_eq_true hg
  exact ⟨w, w', .insert 0 (.sample ⟨7⟩ "k"), hs, hg,
    @exists_of_gained .sample _ _ _ _ _ hs (ne_of_eq_of_ne hg Nat.one_ne_zero)⟩

/-! ## A drain that is kept going -/

/-- The steps of a run without failures: messages are accepted, and the drain `i` moves with quotas
that admit and a provider that sends. -/
def succeeds (i : Nat) : Act → Bool
  | .createComms _ _ => true
  | .insert _ _ => true
  | .task t env =>
    t = i && env.reply = .ok && env.quota = .admitted && (env.provider matches .ok _)
  | _ => false

/-- The ids and the producers of all messages are below a number. -/
structure TenantDb.Below (k : Nat) (db : TenantDb) : Prop where
  commsRequest : ∀ r ∈ db.commsRequest, r.id.bits.toNat < k
  outbox : ∀ r ∈ db.outbox, r.commsRequestId.bits.toNat < k
  idempotency : ∀ r ∈ db.idempotency, r.producerId.bits.toNat < k

namespace TenantDb.Below

variable {k : Nat} {db db' : TenantDb}

theorem lease (h : db.Below k) (ids : List Uuid) (leasedUntil : Time) :
    (db.lease ids leasedUntil).Below k := by
  refine ⟨h.commsRequest, fun r hr => ?_, h.idempotency⟩
  rcases mem_lease.1 hr with ⟨hr, -⟩ | ⟨r0, hr0, -, rfl⟩
  · exact h.outbox r hr
  · exact h.outbox r0 hr0

theorem insertEvent (h : db.Below k) (e : CommsEvent) : (db.insertEvent e).Below k :=
  ⟨by simpa using h.commsRequest, by simpa using h.outbox, by simpa using h.idempotency⟩

theorem writeTerminal (h : db.Below k) {now createdAt : Time} {id customerId : Uuid}
    {eventType finalStatus : Status} {providerRef providerStatus : Option String} :
    (writeTerminal db now createdAt id customerId eventType providerRef providerStatus
      finalStatus).Below k := by
  refine ⟨fun r hr => ?_, fun r hr => h.outbox r (mem_writeTerminal.1 hr).1,
    (h.insertEvent _).idempotency⟩
  rcases mem_setFinalStatus.1 hr with ⟨hr, -⟩ | ⟨r0, hr0, -, rfl⟩
  · exact (h.insertEvent _).commsRequest r hr
  · exact (h.insertEvent _).commsRequest r0 hr0

theorem passStep (h : db.Below k) {row : OutboxRow} {env : Env} {stage : Stage} {next : Next}
    (hs : PassStep db row env stage next db') : db'.Below k := by
  cases hs with
  | goto | gaveUp => exact h
  | recorded => exact h.insertEvent _
  | wrote | bounded => exact h.writeTerminal
  | rescheduled =>
    refine ⟨h.commsRequest, fun r hr => ?_, h.idempotency⟩
    rcases mem_rescheduleRetry.1 hr with ⟨hr, -⟩ | ⟨r0, hr0, -, rfl⟩
    · exact h.outbox r hr
    · exact h.outbox r0 hr0

/-- A step of a task brings no new message. -/
theorem taskStep [UuidCrate] {w w' : World} {i : Nat} {env : Env}
    (hs : w.TaskStep i env w') (h : w.db.Below k) : w'.db.Below k := by
  cases hs with
  | lost runs pc reply query | claimed runs pc reply query =>
    obtain ⟨eligible, -, hc⟩ := query_spec query
    show TenantDb.Below k _
    rw [hc.db]
    exact h.lease _ _
  | passed => exact h.passStep tryProcess_passStep
  | _ => exact h

end TenantDb.Below

section
variable [UuidCrate] {w w' : World} {i p k : Nat} {env : Env} {channel : String} {s : KillSwitch}
  {pc : Pc} {host : Host} {d : Dispatcher}

/-- A drain leaves the processes alone and brings no new message. -/
theorem hosts_of_drain (hs : w.step (.task i env) = some w')
    (ht : w.DrainAt i p channel s pc) (hb : w.db.Below k) : w'.hosts = w.hosts ∧ w'.db.Below k := by
  cases step_cases hs with
  | refresh alive step => cases step
  | task hstep =>
    refine ⟨?_, hb.taskStep hstep⟩
    cases hstep with
    | drained runs kind =>
      cases ht.symm.trans runs.lookup
      cases kind
    | _ => rfl

/-- A run of a drain alone, in which nothing fails, to its next claim. -/
structure Round (i p : Nat) (channel : String) (s : KillSwitch) (k : Nat) (w : World)
    (as : List Act) (w' : World) : Prop where
  steps : Run.Steps World.step (fun _ a => succeeds i a = true) w as w'
  ready : w'.tasks[i]? = some ⟨p, .drain channel s, .ready⟩
  hosts : w'.hosts = w.hosts
  below : w'.db.Below k

theorem Round.cons {w1 : World} {as : List Act} (hc : succeeds i (.task i env) = true)
    (hs : w.step (.task i env) = some w1) (hh : w1.hosts = w.hosts)
    (h : Round i p channel s k w1 as w') : Round i p channel s k w (.task i env :: as) w' :=
  ⟨.cons hc hs h.steps, h.ready, h.hosts.trans hh, h.below⟩

/-- A drain gets through the batch it works on. -/
theorem exists_round_of_working {jobs : Jobs}
    (runs : w.Runs i ⟨p, .drain channel s, .working jobs⟩ host d) (hb : w.db.Below k) :
    ∃ as w', Round i p channel s k w as w' := by
  -- by induction on the steps that the batch has left
  induction hn : Jobs.rank jobs using Nat.strong_induction_on generalizing w jobs with
  | _ n ih =>
    obtain ⟨pick, w1, -, hs⟩ := exists_drain_step runs (by simp [Pc.rank]) {} rfl
    obtain ⟨hh, hb1⟩ := hosts_of_drain hs runs.lookup hb
    obtain ⟨pc', ht', hd⟩ := drainStep_of_step hs runs.lookup
    cases hd with
    | prepared rank =>
      simp only [Pc.rank] at rank
      omega
    | batchDone => exact ⟨_, w1, .cons (by simp [succeeds]) hs hh ⟨.nil, ht', rfl, hb1⟩⟩
    | @passed _ jobs' rank =>
      have hruns : w1.Runs i ⟨p, .drain channel s, .working jobs'⟩ host d :=
        ⟨ht', by rw [World.host?, hh]; exact runs.alive, runs.dispatcher⟩
      obtain ⟨as, w', hround⟩ := ih _ (hn ▸ rank) hruns hb1 rfl
      exact ⟨_, w', .cons (by simp [succeeds]) hs hh hround⟩

omit [UuidCrate] in
theorem runs_moved (runs : w.Runs i ⟨p, .drain channel s, pc⟩ host d) (m : Moved) :
    (w.moved i ⟨p, .drain channel s, pc⟩ m).Runs i ⟨p, .drain channel s, m.pc⟩ host d :=
  ⟨getElem?_set_self (List.getElem?_eq_some_iff.1 runs.lookup).1, runs.alive, runs.dispatcher⟩

/-- A drain builds its exclusion. -/
theorem exists_prepared (runs : w.Runs i ⟨p, .drain channel s, .ready⟩ host d) :
    ∃ (w' : World) (leasedUntil : Time), w.step (.task i {}) = some w' ∧ w'.db = w.db ∧
      w'.Runs i ⟨p, .drain channel s, .claiming leasedUntil
        (exclusionForChannel host.cache.activeSnapshot channel)⟩ host d :=
  ⟨_, _, step_of_move runs rfl, rfl, runs_moved runs _⟩

/-- A claim of a drain for which there is a row returns one, when none is locked. -/
theorem exists_nonEmptyClaim {leasedUntil : Time} {e : ChannelExclusion}
    (runs : w.Runs i ⟨p, .drain channel s, .claiming leasedUntil e⟩ host d)
    (hrate : 1 ≤ d.cfg.releaseRate) {r : OutboxRow} (hr : r ∈ w.db.outbox)
    (he : claimForScopeEligible 0 (some channel) s e r = true) :
    ∃ (pick : Pick) (w' : World) (jobs : Jobs), w.step (.task i { pick := pick }) = some w' ∧
      w'.Runs i ⟨p, .drain channel s, .working jobs⟩ host d ∧
      nonEmptyClaim i w w' = 1 := by
  obtain ⟨pick, rows, db', hlocked, hq⟩ := exists_claimForScope w.db 0 (some channel) s
    d.cfg.releaseRate leasedUntil e
  have hne : rows.rows.isEmpty = false := by
    rw [isEmpty_eq_false_iff]
    intro hnil
    have := locked_of_claimForScope_nil hq hnil hrate hr he
    rw [hlocked] at this
    cases this
  have hm : Task.move ⟨p, .drain channel s, .claiming leasedUntil e⟩ i host.cache d w.db
      { pick := pick } = some ⟨.working ((TaskKind.drain channel s).batch 0 rows), db',
        [.leased p i pick.ids]⟩ := by
    simp only [Task.move, Task.claimStep, TaskKind.query, hq, bind_eq_bind, bind_some, hne]
    rfl
  have hs := step_of_move runs hm
  have runs' := runs_moved runs ⟨.working ((TaskKind.drain channel s).batch 0 rows), db',
    [.leased p i pick.ids]⟩
  refine ⟨pick, _, _, hs, runs', ?_⟩
  rw [nonEmptyClaim, runs.lookup, runs'.lookup]
  rfl

/-- A drain that finds a row makes a non-empty claim and gets through the batch. -/
theorem exists_round (runs : w.Runs i ⟨p, .drain channel s, .ready⟩ host d) (hb : w.db.Below k)
    (hrate : 1 ≤ d.cfg.releaseRate) (hnone : host.cache.activeSnapshot = []) {r : OutboxRow}
    (hr : r ∈ w.db.outbox) (hf : r.forDrain channel s = true) (hdue : r.nextAttemptAt ≤ 0) :
    ∃ as w', Round i p channel s k w as w' ∧
      1 ≤ Run.total World.step (fun w _ => nonEmptyClaim i w) w as := by
  obtain ⟨w1, leasedUntil, hs1, hdb, runs1⟩ := exists_prepared runs
  -- the exclusion leaves out nothing
  have he : claimForScopeEligible 0 (some channel) s
      (exclusionForChannel host.cache.activeSnapshot channel) r = true := by
    obtain ⟨hch, hlease, hm⟩ := OutboxRow.forDrain_iff.1 hf
    refine claimForScopeEligible_iff.2 ⟨hdue, hlease, fun c hc => ?_, hm, fun hx => ?_⟩
    · cases hc
      exact hch
    · obtain ⟨s', hs', -⟩ := excludes_exclusionForChannel.1 hx
      rw [hnone] at hs'
      cases hs'
  obtain ⟨pick, w2, jobs, hs2, runs2, hclaim⟩ := exists_nonEmptyClaim runs1 hrate (hdb ▸ hr) he
  obtain ⟨hh1, hb1⟩ := hosts_of_drain hs1 runs.lookup hb
  obtain ⟨hh2, hb2⟩ := hosts_of_drain hs2 runs1.lookup hb1
  obtain ⟨as, w', hround⟩ := exists_round_of_working runs2 hb2
  refine ⟨_, w', .cons (by simp [succeeds]) hs1 hh1 (.cons (by simp [succeeds]) hs2 hh2 hround), ?_⟩
  rw [Run.total_cons hs1, Run.total_cons hs2, hclaim]
  omega

omit [UuidCrate] in
/-- A message under a new id, of a new producer, is accepted. -/
theorem insertTransactional_new {db : TenantDb} (hb : db.Below k) {c : NewComms}
    (hid : c.commsRequestId.bits.toNat = k) (hp : c.producerId.bits.toNat = k) (now : Time) :
    ∃ db', insertTransactional db now c = .ok (.created, db') ∧ db'.Below (k + 1) ∧
      c.outboxRow now ∈ db'.outbox := by
  have hne : ∀ {a b : Uuid}, a.bits.toNat < k → b.bits.toNat = k → a ≠ b := by
    intro a b ha hb heq
    rw [heq] at ha
    omega
  obtain ⟨idempotency, h1, hm1⟩ := exists_insert? (t := db.idempotency)
    (a := c.idempotencyRow now) fun r hr heq => hne (hb.idempotency r hr) hp (Prod.mk.inj heq).1
  obtain ⟨commsRequest, h2, hm2⟩ := exists_insert? (t := db.commsRequest)
    (a := c.request now) fun r hr heq => hne (hb.commsRequest r hr) hid (Prod.mk.inj heq).2
  obtain ⟨outbox, h3, hm3⟩ := exists_insert? (t := db.outbox) (a := c.outboxRow now)
    fun r hr heq => hne (hb.outbox r hr) hid heq
  refine ⟨{ db with idempotency := idempotency, commsRequest := commsRequest, outbox := outbox },
    by simp only [insertTransactional, h1, h2, h3],
    ⟨fun r hr => ?_, fun r hr => ?_, fun r hr => ?_⟩,
    (hm3 _).2 (.inr rfl)⟩
  · rcases (hm2 r).1 hr with hr | rfl
    · exact lt_succ_of_lt (hb.commsRequest r hr)
    · exact hid ▸ lt_succ_self _
  · rcases (hm3 r).1 hr with hr | rfl
    · exact lt_succ_of_lt (hb.outbox r hr)
    · exact hid ▸ lt_succ_self _
  · rcases (hm1 r).1 hr with hr | rfl
    · exact lt_succ_of_lt (hb.idempotency r hr)
    · exact hp ▸ lt_succ_self _

/-- A tenant context that knows of no switch accepts such a message. -/
theorem exists_arrival {h : Nat} (hh : w.host? h = some host)
    (hfree : host.cache.switches.rows = []) (hplatform : host.cache.platformIds = [])
    (hb : w.db.Below k) {c : NewComms}
    (hid : c.commsRequestId.bits.toNat = k) (hp : c.producerId.bits.toNat = k) :
    ∃ w', Run.Steps World.step (fun _ a => succeeds i a = true) w (Act.accept h c) w' ∧
      w'.hosts = w.hosts ∧ w'.tasks = w.tasks ∧ w'.db.Below (k + 1) ∧
      c.outboxRow 0 ∈ w'.db.outbox := by
  obtain ⟨db', hi, hb', hrow⟩ := insertTransactional_new hb hid hp 0
  have hnew : findIdempotentReply w.db c.producerId c.idempotencyKey = none := by
    rw [findIdempotentReply, map_eq_none_iff]
    by_contra hne
    obtain ⟨r, hr⟩ := ne_none_iff_exists'.1 hne
    obtain ⟨hmem, hkey⟩ := Table.find?_some hr
    have := hb.idempotency r hmem
    rw [(Prod.mk.inj hkey).1, hp] at this
    omega
  have hblock : host.cache.blockingScope c.channel c.producerId c.campaignId = none := by
    simp [ActiveSet.blockingScope, hfree, hplatform]
  let w1 : World := { w with admitted := c :: w.admitted, log := w.log ++ [.admitted h c] }
  have hs1 : w.step (.createComms h c) = some w1 := by
    simp [World.step, World.createComms, hh, hnew, hblock, w1]
  have hs2 : w1.step (.insert 0 c) = some { w1 with db := db' } := by
    have hfresh : (w.db.commsRequest.rows.all fun r => r.id ≠ c.commsRequestId) = true := by
      refine List.all_eq_true.2 fun r hr => decide_eq_true fun heq => ?_
      have := hb.commsRequest r hr
      rw [heq, hid] at this
      omega
    simp only [World.step, World.insert, w1, hi, hfresh, mem_cons, true_or, and_self, if_true]
  exact ⟨{ w1 with db := db' }, .cons rfl hs1 (.cons rfl hs2 .nil), rfl, rfl, hb', hrow⟩

end

/-- A message under a new id, of a new producer, for a run of any length. -/
def NewComms.arrival (k : Nat) : NewComms :=
  { NewComms.sample ⟨BitVec.ofNat 128 k⟩ "k" with producerId := ⟨BitVec.ofNat 128 k⟩ }

section
variable [UuidCrate] {k : Nat} {w : World}

/-- The drain is about to claim one row at a time, nothing is engaged, there is a row for it, and a
message under the next id would be accepted. -/
structure Fed (k : Nat) (w : World) : Prop where
  drain : w.tasks[2]? = some ⟨0, .drain "sms" (.sample ⟨9⟩), .ready⟩
  dispatcher : ∃ host d, w.host? 0 = some host ∧ host.dispatcher = some d ∧
    d.cfg.releaseRate = 1 ∧ host.cache.activeSnapshot = []
  context : ∃ host, w.host? 1 = some host ∧ host.cache.switches.rows = [] ∧
    host.cache.platformIds = []
  row : ∃ r ∈ w.db.outbox, r.forDrain "sms" (.sample ⟨9⟩) = true ∧ r.nextAttemptAt ≤ 0
  below : w.db.Below k

/-- A round of the drain, and a message that arrives. -/
theorem Fed.next (h : Fed k w) (hk : k < Nat.pow 2 128) :
    ∃ as w', Run.Steps World.step (fun _ a => succeeds 2 a = true) w as w' ∧
      1 ≤ Run.total World.step (fun w _ => nonEmptyClaim 2 w) w as ∧ Fed (k + 1) w' := by
  obtain ⟨host, d, hh, hd, hrate, hnone⟩ := h.dispatcher
  obtain ⟨ctx, hctx, hfree, hplatform⟩ := h.context
  obtain ⟨r, hr, hf, hdue⟩ := h.row
  obtain ⟨as, w1, hround, hclaim⟩ := exists_round ⟨h.drain, hh, hd⟩ h.below (by rw [hrate]) hnone
    hr hf hdue
  have hbits : (BitVec.ofNat 128 k).toNat = k := by
    rw [BitVec.toNat_ofNat]
    exact mod_eq_of_lt hk
  have hctx1 : w1.host? 1 = some ctx := by rwa [World.host?, hround.hosts]
  obtain ⟨w2, hs, hhosts, htasks, hb, hrow⟩ := exists_arrival (i := 2) hctx1 hfree hplatform
    hround.below (c := .arrival k) hbits hbits
  have hhost : ∀ p, w2.host? p = w.host? p := by
    intro p
    rw [World.host?, hhosts, hround.hosts]
    rfl
  refine ⟨_, w2, hround.steps.append hs, ?_, ?_, ?_, ?_, ?_, hb⟩
  · rw [hround.steps.total_append]
    omega
  · rw [htasks]
    exact hround.ready
  · exact ⟨host, d, (hhost 0).trans hh, hd, hrate, hnone⟩
  · exact ⟨ctx, (hhost 1).trans hctx, hfree, hplatform⟩
  · exact ⟨_, hrow, rfl, le_rfl⟩

/-- Any number of rounds, while there are ids. -/
theorem Fed.rounds (n : Nat) (h : Fed k w) (hk : k + n ≤ Nat.pow 2 128) :
    ∃ as w', Run.Steps World.step (fun _ a => succeeds 2 a = true) w as w' ∧
      n ≤ Run.total World.step (fun w _ => nonEmptyClaim 2 w) w as := by
  induction n generalizing k w with
  | zero => exact ⟨[], w, .nil, zero_le _⟩
  | succ n ih =>
    obtain ⟨as, w1, hs, hclaim, h1⟩ := h.next (by omega)
    obtain ⟨bs, w2, hs2, hclaims⟩ := ih h1 (by omega)
    refine ⟨_, w2, hs.append hs2, ?_⟩
    rw [hs.total_append]
    omega

end

/-- A drain was just spawned in this state. -/
def World.spawnedDrain (w : World) : Bool :=
  w.tasks[2]?.any fun task =>
    task.owner = 0 && task.kind = .drain "sms" (.sample ⟨9⟩) && (task.pc matches .ready)

theorem World.spawnedDrain_eq {w : World} (h : w.spawnedDrain = true) :
    w.tasks[2]? = some ⟨0, .drain "sms" (.sample ⟨9⟩), .ready⟩ := by
  obtain ⟨task, ht, h⟩ := (Option.any_eq_true _ _).1 h
  simp only [Bool.and_eq_true, decide_eq_true_eq] at h
  obtain ⟨⟨ho, hk⟩, hpc⟩ := h
  obtain ⟨owner, kind, pc⟩ := task
  cases ho
  cases hk
  cases pc <;> first | exact ht | cases hpc

/-- What there is to check of a state from which a drain can be kept going. -/
def World.fed (w : World) : Bool :=
  w.spawnedDrain &&
  ((w.host? 0).any fun host =>
    host.dispatcher.any (·.cfg = .rateOne) && host.cache.activeSnapshot.isEmpty) &&
  ((w.host? 1).any fun host =>
    host.cache.switches.rows.isEmpty && host.cache.platformIds.isEmpty) &&
  (w.db.outbox.rows.any fun r =>
    @OutboxRow.forDrain .sample r "sms" (.sample ⟨9⟩) && r.nextAttemptAt ≤ 0) &&
  (w.db.commsRequest.rows.all fun r => r.id.bits.toNat < 10) &&
  (w.db.outbox.rows.all fun r => r.commsRequestId.bits.toNat < 10) &&
  (w.db.idempotency.rows.all fun r => r.producerId.bits.toNat < 10)

theorem World.fed_of_check {w : World} (h : w.fed = true) :
    @Fed .sample 10 w ∧ w.config 0 = some .rateOne := by
  simp only [World.fed, Bool.and_eq_true, Option.any_eq_true, List.any_eq_true, List.all_eq_true,
    List.isEmpty_iff, decide_eq_true_eq] at h
  obtain ⟨⟨⟨⟨⟨⟨hd, host, hh, ⟨d, hdisp, hcfg⟩, hnone⟩, hctx⟩, hrow⟩, hreq⟩, hout⟩, hidem⟩ := h
  refine ⟨@Fed.mk .sample _ _ (spawnedDrain_eq hd)
    ⟨host, d, hh, hdisp, by rw [hcfg]; rfl, hnone⟩ hctx hrow ⟨hreq, hout, hidem⟩, ?_⟩
  simp [World.config, (host?_eq_some.1 hh).1, hdisp, hcfg]

/-- No function of the backlog and the release rate bounds the non-empty claims of a drain: with a
backlog of one row and the rate 1 it makes as many as messages arrive, while nothing fails and their
ids do not run out. -/
theorem drain_claims_unbounded :
    ¬ ∃ bound : Nat → Nat → Nat, bound 1 1 + 1 < Nat.pow 2 127 ∧
      ∀ (w1 w2 : World) (as bs : List Act) (i p : Nat) (channel : String) (s : KillSwitch)
        (cfg : Config), Run.Steps (@World.step .sample) Run.Any .empty as w1 →
        w1.tasks[i]? = some ⟨p, .drain channel s, .ready⟩ → w1.config p = some cfg →
        1 ≤ cfg.releaseRate →
        Run.Steps (@World.step .sample) (fun _ a => succeeds i a = true) w1 bs w2 →
        Run.total (@World.step .sample) (fun w _ => nonEmptyClaim i w) w1 bs ≤
          bound (@TenantDb.backlog .sample w1.db channel s) cfg.releaseRate := by
  rintro ⟨bound, hN, hbound⟩
  obtain ⟨w1, h1, hp⟩ := Run.Steps.exists_of_exec (@World.step .sample) .empty (releaseOf .rateOne)
    (fun w => w.fed && @TenantDb.backlog .sample w.db "sms" (.sample ⟨9⟩) = 1) (by decide +kernel)
  obtain ⟨hfed, hone⟩ := Bool.and_eq_true_iff.1 hp
  obtain ⟨hfed, hcfg⟩ := World.fed_of_check hfed
  have hids : 10 + (bound 1 1 + 1) ≤ Nat.pow 2 128 := by
    have : Nat.pow 2 128 = 2 * Nat.pow 2 127 := rfl
    have : 10 ≤ Nat.pow 2 127 := by decide
    omega
  obtain ⟨bs, w2, h2, hclaims⟩ := @Fed.rounds .sample _ _ (bound 1 1 + 1) hfed hids
  have hle := hbound w1 w2 _ bs _ _ _ _ _ h1 (@Fed.drain .sample _ _ hfed) hcfg le_rfl h2
  rw [of_decide_eq_true hone] at hle
  exact Nat.not_succ_le_self _ (hclaims.trans hle)

/-- The round of a drain over a backlog of one row, and its last claim. -/
def drainRound : List Act := [Act.task 2 {}, .claim 2 ⟨7⟩] ++ List.replicate 16 (Act.task 2 {})

theorem drain_ends_drainRound :
    ∃ w1 w2 : World, w1.tasks[2]? = some ⟨0, .drain "sms" (.sample ⟨9⟩), .ready⟩ ∧
      Run.Steps (@World.step .sample) Run.Any w1 drainRound w2 ∧
      Run.total (@World.step .sample) (ownStep 2) w1 drainRound = 18 ∧
      18 ≤ 2 + 16 * (@TenantDb.backlog .sample w1.db "sms" (.sample ⟨9⟩) +
          Run.total (@World.step .sample) (fun w _ => @gained .sample "sms" (.sample ⟨9⟩) w) w1
            drainRound) +
        2 * Run.total (@World.step .sample) (fun w _ => failedClaim 2 w) w1 drainRound := by
  obtain ⟨w1, -, hp⟩ := Run.Steps.exists_of_exec (@World.step .sample) .empty (releaseOf .sample)
    (fun w => w.spawnedDrain && (Run.exec (@World.step .sample) w drainRound).isSome &&
      Run.total (@World.step .sample) (ownStep 2) w drainRound = 18) (by decide +kernel)
  obtain ⟨hp, hown⟩ := Bool.and_eq_true_iff.1 hp
  obtain ⟨hd, hs⟩ := Bool.and_eq_true_iff.1 hp
  obtain ⟨w2, hs⟩ := Option.isSome_iff_exists.1 hs
  have hown := of_decide_eq_true hown
  have hends := (@drain_ends .sample _ _ _ _ _ _ _ (World.spawnedDrain_eq hd) (.of_exec hs)).2.1
  exact ⟨w1, w2, World.spawnedDrain_eq hd, .of_exec hs, hown, hown ▸ hends⟩

end Messgr
