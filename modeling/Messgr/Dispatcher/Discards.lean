import Messgr.Dispatcher.Drains

/-!
# Discards of engaged switches

A dispatcher that sees a `discard` switch engaged claims the rows that the switch matches and writes
them off, until a claim comes back empty. `discard_complete`: a row that is queued when the switch
is seen is never sent, also after the release. The discard runs once and takes only what is due and
not leased, so this needs that no loop has claimed the row by then (`World.leftToDiscards`), that
the discard can claim it, that other claims leave the scope out, and that whoever has the row is not
stopped (`discardsFully`). A row that is scheduled for later is sent after the release
(`sent_after_discard_scheduled`).
-/

namespace Messgr

open List Option Table Bool World

/-! ## The discard of a switch -/

/-- The switches that a refresh found engaged and has still to handle. -/
def RefreshPc.newlyEngaged : RefreshPc → List KillSwitch
  | .delta newlyEngaged _ => newlyEngaged
  | _ => []

/-- A dispatcher has the backlog of a switch still to discard, or is at it. -/
def World.discarding (w : World) (p : Nat) (s : KillSwitch) : Bool :=
  ((w.host? p).any fun host => s ∈ host.refresh.newlyEngaged) ||
    w.tasks.any fun task => task.owner = p && task.kind = .discard s && !(task.pc matches .ended)

/-- Some task has claimed a message and has not finished it. -/
def World.isHeld (w : World) (id : Uuid) : Bool :=
  w.tasks.any fun task => task.pc.jobs.rows.any (·.id = id)

section
variable {w w' : World} {a : Act} {p : Nat} {s : KillSwitch} {id : Uuid}

/-- To discard: not handled yet, or the task has not ended. -/
theorem discarding_iff : w.discarding p s = true ↔
    (∃ host, w.host? p = some host ∧ s ∈ host.refresh.newlyEngaged) ∨
      ∃ (t : Nat) (pc : Pc), w.tasks[t]? = some ⟨p, .discard s, pc⟩ ∧ pc ≠ .ended := by
  simp only [World.discarding, or_eq_true, Option.any_eq_true, decide_eq_true_eq,
    List.any_eq_true, and_eq_true, not_eq_true']
  refine or_congr_right ⟨?_, ?_⟩
  · rintro ⟨⟨owner, kind, pc⟩, hm, ⟨rfl, rfl⟩, hpc⟩
    obtain ⟨t, ht⟩ := mem_iff_getElem?.1 hm
    refine ⟨t, pc, ht, ?_⟩
    rintro rfl
    cases hpc
  · rintro ⟨t, pc, ht, hpc⟩
    refine ⟨_, mem_of_getElem? ht, ⟨rfl, rfl⟩, ?_⟩
    cases pc <;> first | rfl | exact absurd rfl hpc

theorem isHeld_iff : w.isHeld id = true ↔ ∃ t j, w.Holds t j ∧ j.id = id := by
  simp only [World.isHeld, World.Holds, List.any_eq_true, decide_eq_true_eq]
  constructor
  · rintro ⟨task, hm, j, hj, hid⟩
    obtain ⟨t, ht⟩ := mem_iff_getElem?.1 hm
    exact ⟨t, j, ⟨task, ht, hj⟩, hid⟩
  · rintro ⟨t, j, ⟨task, ht, hj⟩, hid⟩
    exact ⟨task, mem_of_getElem? ht, j, hj, hid⟩

variable [UuidCrate]

/-- A switch still to be handled stays so, or its discard is spawned. -/
theorem discarding_of_newlyEngaged {host : Host} (hs : w.Step a w') (hh : w.host? p = some host)
    (hd : host.dispatcher.isSome = true) (hdiscard : s.onQueued = .discard)
    (hm : s ∈ host.refresh.newlyEngaged) (hc : a ≠ .crash p) : w'.discarding p s = true := by
  obtain ⟨hget, halive⟩ := host?_eq_some.1 hh
  have hlt : p < w.hosts.length := (List.getElem?_eq_some_iff.1 hget).1
  have hkeep : w'.hosts[p]? = some host → w'.discarding p s = true := fun h =>
    discarding_iff.2 (.inl ⟨host, host?_eq_some.2 ⟨h, halive⟩, hm⟩)
  -- a step that changes some host, and not the place of its refresh loop
  have hset : ∀ {q : Nat} {host0 host1 : Host}, w.host? q = some host0 →
      w'.hosts = w.hosts.set q host1 → host1.refresh = host0.refresh →
      host1.alive = host0.alive → w'.discarding p s = true := by
    intro q host0 host1 hq hw hr ha
    by_cases hqp : q = p
    · subst hqp
      cases hq.symm.trans hh
      refine discarding_iff.2 (.inl ⟨host1, host?_eq_some.2 ⟨?_, ha ▸ halive⟩, hr ▸ hm⟩)
      rw [hw, getElem?_set_self hlt]
    · exact hkeep (by rw [hw, getElem?_set_ne hqp, hget])
  cases hs with
  | started | opened => exact hkeep ((getElem?_append_left hlt).trans hget)
  | @crashed h host0 alive =>
    have hne : h ≠ p := fun heq => hc (by rw [heq])
    exact hkeep ((getElem?_set_ne hne).trans hget)
  | acquired alive | swept alive | led alive => exact hset alive rfl rfl rfl
  | @refresh h host0 _ _ alive step =>
    by_cases hp : h = p
    · subst hp
      cases alive.symm.trans hh
      cases step with
      | failed => exact hkeep hget
      | tenant pc | platform pc | swapped pc | released pc | handled pc =>
        rw [pc] at hm
        cases hm
      | @engaged s' newlyEngaged released pc =>
        rw [pc] at hm
        rcases mem_cons.1 hm with rfl | hm
        · -- its discard is spawned
          refine discarding_iff.2 (.inr ⟨w.tasks.length, .ready, ?_, Pc.noConfusion⟩)
          have hon : World.onEngaged h host s = [⟨h, .discard s, .ready⟩] := by
            simp [World.onEngaged, hd, hdiscard]
          show (w.tasks ++ World.onEngaged h host s)[w.tasks.length]? = _
          rw [hon, getElem?_append_right le_rfl, Nat.sub_self]
          rfl
        · refine discarding_iff.2 (.inl ⟨_, host?_eq_some.2 ⟨getElem?_set_self hlt, ?_⟩, hm⟩)
          exact halive
    · cases step with
      | failed => exact hkeep hget
      | _ => exact hkeep ((getElem?_set_ne hp).trans hget)
  | task step =>
    cases step with
    | drained runs => exact hset runs.alive rfl rfl rfl
    | _ => exact hkeep hget
  | _ => exact hkeep hget

/-- A discard ends with its process, or with a claim that returns nothing. -/
theorem discard_of_step {t : Nat} {pc : Pc} (hs : w.Step a w') (hc : a ≠ .crash p)
    (ht : w.tasks[t]? = some ⟨p, .discard s, pc⟩) (hpc : pc ≠ .ended) :
    (∃ pc', w'.tasks[t]? = some ⟨p, .discard s, pc'⟩ ∧ pc' ≠ .ended) ∨
      ∃ env leasedUntil e host d rows db', a = .task t env ∧ pc = .claiming leasedUntil e ∧
        w.Runs t ⟨p, .discard s, pc⟩ host d ∧ env.reply = .ok ∧ rows.rows = [] ∧
        (TaskKind.discard s).query d.cfg w.db env leasedUntil e = some (rows, db') := by
  have hlt : t < w.tasks.length := (List.getElem?_eq_some_iff.1 ht).1
  rcases task_of_step hs ht with hsame | ⟨rfl, -⟩ | ⟨env, rfl, hstep⟩
  · exact .inl ⟨pc, hsame, hpc⟩
  · exact absurd rfl hc
  · cases hstep with
    | looped runs loop =>
      cases ht.symm.trans runs.lookup
      refine .inl ⟨_, getElem?_set_self hlt, ?_⟩
      cases pc <;> cases loop <;> exact Pc.noConfusion
    | failed runs | lost runs =>
      cases ht.symm.trans runs.lookup
      exact .inl ⟨.ready, getElem?_set_self hlt, Pc.noConfusion⟩
    | @claimed _ host d leasedUntil e rows db' runs pc reply query =>
      cases ht.symm.trans runs.lookup
      cases hrows : rows.rows with
      | nil =>
        exact .inr ⟨env, leasedUntil, e, host, d, rows, db', rfl, pc, runs, reply, hrows, query⟩
      | cons r rest =>
        refine .inl ⟨.working ((TaskKind.discard s).batch env.clock rows), ?_, Pc.noConfusion⟩
        simp [World.moved, getElem?_set_self hlt]
    | batchDone runs | passed runs =>
      cases ht.symm.trans runs.lookup
      exact .inl ⟨_, getElem?_set_self hlt, Pc.noConfusion⟩
    | spawned runs kind | drained runs kind =>
      cases ht.symm.trans runs.lookup
      cases kind

end

/-! ## Jobs, exclusions and settings along a step -/

/-- What a step of a task does with its jobs: none, the rows just claimed, or the first is passed
on. -/
inductive JobsStep [UuidCrate] (db db' : TenantDb) (task : Task) (env : Env) (pc : Pc) : Prop
  | idle (before : task.pc.jobs = ∅) (after : pc.jobs = ∅)
  | claimed {cfg : Config} {leasedUntil : Time} {e : ChannelExclusion} {rows : OutboxRows}
      (claiming : task.pc = .claiming leasedUntil e)
      (query : task.kind.query cfg db env leasedUntil e = some (rows, db'))
      (jobs : ∀ j, j ∈ pc.jobs ↔ j.row ∈ rows ∧ j.stage = task.kind.firstStage env.clock j.row)
  | passed {cfg : Config} {jobs : Jobs} {job : Job} {rest : List Job}
      (working : task.pc = .working jobs) (head : jobs.rows = job :: rest)
      (next : pc = .working ((tryProcess cfg db job.row env job.stage).1.jobs jobs job))
      (written : db' = (tryProcess cfg db job.row env job.stage).2)

/-- The exclusion that a task claims with. -/
def Pc.exclusion : Pc → Option ChannelExclusion
  | .claiming _ e | .delaying _ e => some e
  | _ => none

/-- A discard leaves no row out. -/
def World.DiscardsAll (w : World) : Prop :=
  ∀ (t p : Nat) (s : KillSwitch) (pc : Pc), w.tasks[t]? = some ⟨p, .discard s, pc⟩ →
    ∀ e, pc.exclusion = some e → e = .default

section
variable [UuidCrate] {w w' : World} {a : Act} {p t : Nat} {env : Env} {task : Task}

/-- What a step of a task does with its jobs. -/
theorem jobsStep_of_taskStep (hs : w.TaskStep t env w') (ht : w.tasks[t]? = some task) :
    ∃ pc, w'.tasks[t]? = some { task with pc := pc } ∧ JobsStep w.db w'.db task env pc := by
  have hlt : t < w.tasks.length := (List.getElem?_eq_some_iff.1 ht).1
  cases hs with
  | looped runs loop =>
    cases ht.symm.trans runs.lookup
    obtain ⟨hj, hj'⟩ := jobs_loopStep loop
    exact ⟨_, getElem?_set_self hlt, .idle hj hj'⟩
  | failed runs pc | lost runs pc =>
    cases ht.symm.trans runs.lookup
    exact ⟨_, getElem?_set_self hlt, .idle (by rw [pc]; rfl) jobs_onFailure⟩
  | claimed runs pc reply query =>
    cases ht.symm.trans runs.lookup
    exact ⟨_, getElem?_set_self hlt, .claimed pc query fun j => mem_jobs_claimed⟩
  | @batchDone _ _ _ jobs runs pc empty =>
    cases ht.symm.trans runs.lookup
    refine ⟨_, getElem?_set_self hlt, .idle ?_ rfl⟩
    rw [pc]
    obtain ⟨rows, hn⟩ := jobs
    cases empty
    rfl
  | passed runs pc head =>
    cases ht.symm.trans runs.lookup
    exact ⟨_, getElem?_set_self hlt, .passed pc head rfl rfl⟩
  | spawned runs kind pc =>
    cases ht.symm.trans runs.lookup
    refine ⟨_, (getElem?_append_left ?_).trans (getElem?_set_self hlt), .idle (by rw [pc]; rfl) rfl⟩
    rwa [length_set]
  | drained runs kind pc =>
    cases ht.symm.trans runs.lookup
    exact ⟨_, getElem?_set_self hlt, .idle (by rw [pc]; rfl) rfl⟩

/-- A row that a task holds it held before, or has just claimed or passed on. -/
theorem holds_of_step {j : Job} (hs : w.Step a w') (hj : w'.Holds t j) :
    w.Holds t j ∨ ∃ env task pc, a = .task t env ∧ w.tasks[t]? = some task ∧ j ∈ pc.jobs ∧
      JobsStep w.db w'.db task env pc := by
  obtain ⟨task', ht', hj⟩ := hj
  by_cases hlt : t < w.tasks.length
  · have ht := getElem?_eq_getElem hlt
    rcases task_of_step hs ht with hsame | ⟨rfl, hended⟩ | ⟨env, rfl, hstep⟩
    · cases hsame.symm.trans ht'
      exact .inl ⟨_, ht, hj⟩
    · cases hended.symm.trans ht'
      exact absurd hj (not_mem_empty j)
    · obtain ⟨pc, hpc, hjobs⟩ := jobsStep_of_taskStep hstep ht
      cases hpc.symm.trans ht'
      exact .inr ⟨env, _, pc, rfl, ht, hj, hjobs⟩
  · obtain ⟨-, hpc⟩ := spawned_of_step hs (Nat.not_lt.1 hlt) ht'
    rcases hpc with hpc | hpc <;> rw [hpc] at hj <;> exact absurd hj (not_mem_empty j)

/-- Every step keeps the exclusions of discards empty. -/
theorem World.DiscardsAll.step (h : w.DiscardsAll) (hs : w.Step a w') : w'.DiscardsAll := by
  intro t p s pc' ht' e he
  by_cases hlt : t < w.tasks.length
  · have ht := getElem?_eq_getElem hlt
    generalize w.tasks[t] = task at ht
    obtain ⟨owner, kind, pc0⟩ := task
    obtain ⟨pc, ht''⟩ := exists_pc_of_step hs ht
    cases ht'.symm.trans ht''
    have hset : ∀ {pc : Pc}, (w.tasks.set t ⟨owner, .discard s, pc⟩)[t]? =
        some ⟨owner, .discard s, pc'⟩ → pc.exclusion = some e := by
      intro pc h
      rw [getElem?_set_self hlt] at h
      cases h
      exact he
    rcases task_of_step hs ht with hsame | ⟨-, hended⟩ | ⟨env, -, hstep⟩
    · cases hsame.symm.trans ht'
      exact h t owner s _ ht e he
    · cases hended.symm.trans ht'
      cases he
    · cases hstep with
      | looped runs loop =>
        cases ht.symm.trans runs.lookup
        have he := hset ht'
        cases pc0 <;> cases loop
        · cases he
          rfl
        · exact h t owner s _ ht e he
      | failed runs | lost runs | batchDone runs | passed runs =>
        cases ht.symm.trans runs.lookup
        cases hset ht'
      | claimed runs =>
        cases ht.symm.trans runs.lookup
        have he := hset ht'
        split at he <;> cases he
      | spawned runs kind | drained runs kind =>
        cases ht.symm.trans runs.lookup
        cases kind
  · obtain ⟨-, hpc⟩ := spawned_of_step hs (Nat.not_lt.1 hlt) ht'
    rcases hpc with hpc | hpc <;> cases hpc <;> cases he

end

/-! ## The fate of one row -/

/-- The next stage of a bounded write is its next attempt. -/
theorem bounded_of_goto {cfg : Config} {db : TenantDb} {row : OutboxRow} {env : Env}
    {write : BoundedWrite} {attempt : Nat} {stage : Stage}
    (h : (tryProcess cfg db row env (.bounded write attempt)).1 = .goto stage) :
    stage = .bounded write (attempt + 1) := by
  simp only [tryProcess] at h
  cases hr : env.reply <;> simp only [hr] at h
  · cases h
  all_goals
    split at h <;> cases h
    rfl

section
variable [UuidCrate] {w w' : World} {a : Act} {p t : Nat} {s : KillSwitch} {id : Uuid}
variable {env : Env} {e : ChannelExclusion} {leasedUntil : Time}

/-- A message of the ledger whose row, while it is queued, the switch matches. -/
structure Matched (s : KillSwitch) (id : Uuid) (db : TenantDb) : Prop where
  known : ∃ q ∈ db.commsRequest, q.id = id
  row : ∀ r ∈ db.outbox, r.commsRequestId = id → s.matchesRow r = true

theorem OutboxRow.Continues.matchesRow {r r' : OutboxRow} (h : r.Continues r') :
    s.matchesRow r' = s.matchesRow r := by
  rw [KillSwitch.matchesRow, KillSwitch.matchesRow, h.channel, h.producerId, h.campaignId]

/-- A row of a message that is known continues one. -/
theorem Matched.continues (h : Matched s id w.db) (hq : QueueStep w a w') {r' : OutboxRow}
    (hr' : r' ∈ w'.db.outbox) (hid : r'.commsRequestId = id) :
    ∃ r ∈ w.db.outbox, r.commsRequestId = id ∧ r.Continues r' := by
  rcases hq.outbox_continues hr' with ⟨r, hr, hcont⟩ | hnew
  · exact ⟨r, hr, hcont.id.trans hid, hcont⟩
  · obtain ⟨q, hq, hqid⟩ := h.known
    exact absurd (hqid.trans hid.symm) (hnew q hq)

theorem Matched.step (h : Matched s id w.db) (hw : w.Sound) (hq : QueueStep w a w') :
    Matched s id w'.db := by
  refine ⟨?_, fun r' hr' hid => ?_⟩
  · obtain ⟨q, hmem, hqid⟩ := h.known
    obtain ⟨q', hq', hid, -⟩ := (hw.db_step hq).2 q hmem
    exact ⟨q', hq', hid.trans hqid⟩
  · obtain ⟨r, hr, hrid, hcont⟩ := h.continues hq hr' hid
    rw [hcont.matchesRow]
    exact h.row r hr hrid

/-- A condition: until the dispatcher has discarded and nobody holds the row, loops and
drains claim with exclusions that leave the switch's scope out; when the discard claims, the row is
gone, held, or due and neither leased nor locked, and the claim may take a row; and nothing leaves
the row to nobody: no crash, and no fifth failure of the write. -/
def discardsFully (p : Nat) (s : KillSwitch) (id : Uuid) (w : World) : Act → Bool
  | .crash h =>
    (!w.discarding p s && !w.isHeld id) || (h ≠ p && w.discarding p s) ||
      w.tasks.any fun task => task.owner ≠ h && task.pc.jobs.rows.any (·.id = id)
  | .task t env => w.tasks[t]?.all fun task =>
    match task.kind, task.pc with
    | .channelLoop channel, .claiming _ e | .drain channel _, .claiming _ e =>
      (!w.discarding p s && !w.isHeld id) || e.subsumes (exclusionForChannel [s] channel)
    | .discard s', .claiming _ _ =>
      task.owner ≠ p || s' ≠ s || env.reply ≠ .ok || w.isHeld id ||
        w.db.outbox.rows.all fun r => r.commsRequestId ≠ id || (r.nextAttemptAt ≤ env.now &&
          r.leasedUntil.isNone && id ∉ env.pick.locked && (w.config p).all (1 ≤ ·.releaseRate))
    | _, .working jobs =>
      w.discarding p s || env.reply ≠ .failed || jobs.rows.head?.all fun job =>
        job.id ≠ id || match job.stage with
          | .bounded _ attempt => attempt < maxWriteTerminalAttempts
          | _ => true
    | _, _ => true
  | _ => true

/-- The row is matched, whoever holds it is about to write it off, and while it is queued somebody
has it to discard. -/
structure Doomed (p : Nat) (s : KillSwitch) (id : Uuid) (w : World) : Prop where
  matched : Matched s id w.db
  held : ∀ t j, w.Holds t j → j.id = id → ∃ attempt, j.stage = .bounded .discarded attempt
  busy : ∀ r ∈ w.db.outbox, r.commsRequestId = id → w.discarding p s = true ∨ w.isHeld id = true
  dispatcher : ∃ cfg, w.config p = some cfg
  plain : w.DiscardsAll

/-- A claim that takes the row is that of a discard. -/
theorem Doomed.not_eligible (h : Doomed p s id w) {task : Task}
    (hc : discardsFully p s id w (.task t env) = true) (ht : w.tasks[t]? = some task)
    (hpc : task.pc = .claiming leasedUntil e) {r : OutboxRow} (hr : r ∈ w.db.outbox)
    (hid : r.commsRequestId = id) (he : task.kind.eligible env.now e r = true) :
    ∃ s', task.kind = .discard s' := by
  have hm := h.matched.row r hr hid
  -- an exclusion that leaves the scope out leaves the row out
  have hcovers : ∀ channel, r.channel = channel → ¬ e.ExcludesRow r →
      ((!w.discarding p s && !w.isHeld id) || e.subsumes (exclusionForChannel [s] channel)) = true →
      False := by
    intro channel hch hx hc
    rcases or_eq_true_iff.1 hc with hc | hc
    · simp only [and_eq_true, not_eq_true'] at hc
      rcases h.busy r hr hid with hb | hb
      · rw [hb] at hc
        cases hc.1
      · rw [hb] at hc
        cases hc.2
    · refine hx (ChannelExclusion.excludes_of_subsumes hc ?_)
      refine excludes_exclusionForChannel.2 ⟨s, .head _, ?_⟩
      rw [← hch]
      exact hm
  obtain ⟨owner, kind, pc⟩ := task
  cases hpc
  simp only [discardsFully, ht, all_some] at hc
  cases kind with
  | channelLoop channel =>
    obtain ⟨hch, -, -, hx⟩ := claimEligible_iff.1 he
    exact (hcovers channel hch hx hc).elim
  | drain channel s' =>
    obtain ⟨-, -, hch, -, hx⟩ := claimForScopeEligible_iff.1 he
    exact (hcovers channel (hch channel rfl) hx hc).elim
  | discard s' => exact ⟨s', rfl⟩
  | release s' => cases he

/-- Whoever holds the row is still about to write it off. -/
theorem Doomed.held_step (h : Doomed p s id w) (hs : w.Step a w')
    (hc : discardsFully p s id w a = true) {j : Job} (hj : w'.Holds t j) (hid : j.id = id) :
    ∃ attempt, j.stage = .bounded .discarded attempt := by
  rcases holds_of_step hs hj with hj | ⟨env, task, pc, rfl, ht, hj, hjobs⟩
  · exact h.held t j hj hid
  · cases hjobs with
    | idle before after =>
      rw [after] at hj
      exact absurd hj (not_mem_empty j)
    | claimed claiming query jobs =>
      obtain ⟨hrow, hstage⟩ := (jobs j).1 hj
      obtain ⟨r0, hr0, he, heq⟩ := (query_claimed query).eligible_of_mem hrow
      have hid0 : r0.commsRequestId = id := (congrArg OutboxRow.commsRequestId heq).symm.trans hid
      obtain ⟨s', hk⟩ := h.not_eligible hc ht claiming hr0 hid0 he
      rw [hk] at hstage
      exact ⟨1, hstage⟩
    | @passed cfg jobs job rest working head next written =>
      subst next
      have hjob : job ∈ jobs := by rw [Table.mem_def, head]; exact .head _
      have hold : ∀ {j}, j ∈ jobs → w.Holds t j := fun hj => ⟨task, ht, by rw [working]; exact hj⟩
      rcases (mem_nextJobs hjob).1 hj with ⟨hj, -⟩ | ⟨stage, hgoto, rfl⟩
      · exact h.held t j (hold hj) hid
      · obtain ⟨attempt, hstage⟩ := h.held t job (hold hjob) hid
        rw [hstage] at hgoto
        exact ⟨attempt + 1, bounded_of_goto hgoto⟩

/-- A dispatcher with the switch to discard goes on with it, crashes, or claims nothing. -/
theorem Doomed.discarding_step (h : Doomed p s id w) (hs : w.Step a w')
    (hdiscard : s.onQueued = .discard) (hd : w.discarding p s = true) (hc : a ≠ .crash p) :
    w'.discarding p s = true ∨
      ∃ t env leasedUntil e host d rows db', a = .task t env ∧
        w.Runs t ⟨p, .discard s, .claiming leasedUntil e⟩ host d ∧ env.reply = .ok ∧
        rows.rows = [] ∧
        (TaskKind.discard s).query d.cfg w.db env leasedUntil e = some (rows, db') := by
  rcases discarding_iff.1 hd with ⟨host, hh, hm⟩ | ⟨t, pc, ht, hpc⟩
  · obtain ⟨cfg, hcfg⟩ := h.dispatcher
    have hsome : host.dispatcher.isSome = true := by
      simp only [World.config, (host?_eq_some.1 hh).1, bind_some, map_eq_some_iff] at hcfg
      obtain ⟨d, hd, -⟩ := hcfg
      rw [hd]
      rfl
    exact .inl (discarding_of_newlyEngaged hs hh hsome hdiscard hm hc)
  · rcases discard_of_step hs hc ht hpc with ⟨pc', ht', hpc'⟩ |
      ⟨env, leasedUntil, e, host, d, rows, db', rfl, rfl, runs, reply, hnil, query⟩
    · exact .inl (discarding_iff.2 (.inr ⟨t, pc', ht', hpc'⟩))
    · exact .inr ⟨t, env, leasedUntil, e, host, d, rows, db', rfl, runs, reply, hnil, query⟩

/-- A row that is held stays so, or is gone, or its task has given up. -/
theorem Doomed.isHeld_step (h : Doomed p s id w) (hs : w.Step a w') {j : Job}
    (hj : w.Holds t j) (hid : j.id = id)
    (hc : ∀ task, w.tasks[t]? = some task → a ≠ .crash task.owner) :
    w'.isHeld id = true ∨ (∀ r ∈ w'.db.outbox, r.commsRequestId ≠ id) ∨
      ∃ env task jobs job rest attempt, a = .task t env ∧ w.tasks[t]? = some task ∧
        task.pc = .working jobs ∧ jobs.rows = job :: rest ∧ job.id = id ∧
        job.stage = .bounded .discarded attempt ∧ env.reply = .failed ∧
        ¬ attempt < maxWriteTerminalAttempts := by
  obtain ⟨task, ht, hmem⟩ := hj
  rcases task_of_step hs ht with hsame | ⟨rfl, -⟩ | ⟨env, rfl, hstep⟩
  · exact .inl (isHeld_iff.2 ⟨t, j, ⟨task, hsame, hmem⟩, hid⟩)
  · exact absurd rfl (hc task ht)
  · obtain ⟨pc, ht', hjobs⟩ := jobsStep_of_taskStep hstep ht
    cases hjobs with
    | idle before after =>
      rw [before] at hmem
      exact absurd hmem (not_mem_empty j)
    | claimed claiming query jobs =>
      rw [claiming] at hmem
      exact absurd hmem (not_mem_empty j)
    | @passed cfg jobs job rest working head next written =>
      subst next
      rw [working] at hmem
      have hjob : job ∈ jobs := by rw [Table.mem_def, head]; exact .head _
      by_cases hne : j.id = job.id
      · have hid' : job.id = id := hne.symm.trans hid
        obtain ⟨attempt, hstage⟩ := h.held t job ⟨task, ht, by rw [working]; exact hjob⟩ hid'
        rw [hstage] at written ht'
        cases hr : env.reply with
        | ok | lost =>
          -- the write is committed
          refine .inr (.inl fun r hr' => ?_)
          simp only [written, tryProcess, hr] at hr'
          exact hid' ▸ (mem_writeTerminal.1 hr').2
        | failed =>
          by_cases hlt : attempt < maxWriteTerminalAttempts
          · refine .inl (isHeld_iff.2 ⟨t, { job with stage := .bounded .discarded (attempt + 1) },
              ⟨_, ht', (mem_nextJobs hjob).2 (.inr ⟨_, ?_, rfl⟩)⟩, hid'⟩)
            simp [tryProcess, hr, hlt]
          · exact .inr (.inr ⟨env, task, jobs, job, rest, attempt, rfl, ht, working, head, hid',
              hstage, hr, hlt⟩)
      · exact .inl (isHeld_iff.2 ⟨t, j, ⟨_, ht', (mem_nextJobs hjob).2 (.inl ⟨hmem, hne⟩)⟩, hid⟩)

/-- A task gives the row up only while the dispatcher is discarding. -/
theorem discarding_of_gaveUp {task : Task} {jobs : Jobs} {job : Job} {rest : List Job}
    {attempt : Nat} (hc : discardsFully p s id w (.task t env) = true)
    (ht : w.tasks[t]? = some task) (hpc : task.pc = .working jobs) (head : jobs.rows = job :: rest)
    (hid : job.id = id) (hstage : job.stage = .bounded .discarded attempt)
    (hr : env.reply = .failed) (hlast : ¬ attempt < maxWriteTerminalAttempts) :
    w.discarding p s = true := by
  obtain ⟨owner, kind, pc⟩ := task
  cases hpc
  cases kind <;> simpa [discardsFully, ht, head, hid, hstage, hr, hlast] using hc

/-- The discard's claim comes back empty only when the row is held. -/
theorem Doomed.isHeld_of_empty (h : Doomed p s id w) {host : Host} {d : Dispatcher}
    {rows : OutboxRows} {db' : TenantDb} (hc : discardsFully p s id w (.task t env) = true)
    (runs : w.Runs t ⟨p, .discard s, .claiming leasedUntil e⟩ host d) (reply : env.reply = .ok)
    (hnil : rows.rows = [])
    (query : (TaskKind.discard s).query d.cfg w.db env leasedUntil e = some (rows, db'))
    {r : OutboxRow} (hr : r ∈ w.db.outbox) (hid : r.commsRequestId = id) : w.isHeld id = true := by
  have hh := (host?_eq_some.1 runs.alive).1
  simp only [discardsFully, runs.lookup, all_some, reply, World.config, hh,
    bind_some, runs.dispatcher, map_some, ne_eq, not_true_eq_false, decide_false,
    Bool.false_or, Bool.or_eq_true, List.all_eq_true, Bool.and_eq_true, decide_eq_true_eq,
    isNone_iff_eq_none] at hc
  rcases hc with hc | hc
  · exact hc
  · rcases hc r hr with hne | ⟨⟨⟨hdue, hlease⟩, hlock⟩, hrate⟩
    · exact absurd hid hne
    · cases h.plain t p s _ runs.lookup e rfl
      have he : claimForScopeEligible env.now none s .default r = true :=
        claimForScopeEligible_iff.2 ⟨hdue, hlease, fun c hc => (by cases hc),
          h.matched.row r hr hid, ChannelExclusion.not_excludes_default _ _⟩
      exact absurd (hid ▸ locked_of_claimForScope_nil query hnil hrate hr he) hlock

/-- While the row is queued, somebody still has it to discard. -/
theorem Doomed.busy_step (h : Doomed p s id w) (hs : w.step a = some w')
    (hdiscard : s.onQueued = .discard) (hc : discardsFully p s id w a = true) {r' : OutboxRow}
    (hr' : r' ∈ w'.db.outbox) (hid : r'.commsRequestId = id) :
    w'.discarding p s = true ∨ w'.isHeld id = true := by
  have hstep := step_cases hs
  obtain ⟨r, hr, hrid, -⟩ := h.matched.continues (queueStep_of_step hs) hr' hid
  -- who has the row keeps it, unless it gives up
  have hkeep : ∀ t j, w.Holds t j → j.id = id →
      (∀ task, w.tasks[t]? = some task → a ≠ .crash task.owner) → w'.isHeld id = true ∨
      ∃ env task jobs, a = .task t env ∧ w.tasks[t]? = some task ∧ task.pc = .working jobs ∧
        w.discarding p s = true := by
    intro t j hj hjid hne
    rcases h.isHeld_step hstep hj hjid hne with hheld | hgone |
      ⟨env, task, jobs, job, rest, attempt, rfl, ht, hpc, head, hjob, hstage, hfailed, hlast⟩
    · exact .inl hheld
    · exact absurd hid (hgone r' hr')
    · exact .inr ⟨env, task, jobs, rfl, ht, hpc,
        discarding_of_gaveUp hc ht hpc head hjob hstage hfailed hlast⟩
  by_cases hcrash : ∃ q, a = .crash q
  · obtain ⟨q, rfl⟩ := hcrash
    simp only [discardsFully, or_eq_true, and_eq_true, not_eq_true',
      List.any_eq_true, decide_eq_true_eq] at hc
    rcases hc with (⟨hd, hheld⟩ | ⟨hne, hd⟩) | ⟨task, htask, howner, j, hj, hjid⟩
    · rcases h.busy r hr hrid with hb | hb
      · rw [hb] at hd
        cases hd
      · rw [hb] at hheld
        cases hheld
    · rcases h.discarding_step hstep hdiscard hd (by simpa using hne) with hd |
        ⟨_, _, _, _, _, _, _, _, heq, -⟩
      · exact .inl hd
      · cases heq
    · obtain ⟨t, ht⟩ := mem_iff_getElem?.1 htask
      refine .inr ((hkeep t j ⟨task, ht, hj⟩ hjid fun task' ht' heq => ?_).resolve_right ?_)
      · cases ht.symm.trans ht'
        cases heq
        exact howner rfl
      · rintro ⟨_, _, _, heq, -⟩
        cases heq
  · have hkeep' : w.isHeld id = true → w'.isHeld id = true ∨ ∃ t env task jobs, a = .task t env ∧
        w.tasks[t]? = some task ∧ task.pc = .working jobs ∧ w.discarding p s = true := by
      intro hheld
      obtain ⟨t, j, hj, hjid⟩ := isHeld_iff.1 hheld
      rcases hkeep t j hj hjid fun task _ heq => hcrash ⟨_, heq⟩ with hheld | hgave
      · exact .inl hheld
      · exact .inr ⟨t, hgave⟩
    have hgo := fun hd => h.discarding_step hstep hdiscard hd fun heq => hcrash ⟨_, heq⟩
    rcases h.busy r hr hrid with hb | hb
    · rcases hgo hb with hd | ⟨t, env, leasedUntil, e, host, d, rows, db', rfl, runs, reply, hnil,
        query⟩
      · exact .inl hd
      · rcases hkeep' (h.isHeld_of_empty hc runs reply hnil query hr hrid) with hheld |
          ⟨t', env', task, jobs, heq, ht, hpc, -⟩
        · exact .inr hheld
        · cases heq
          cases runs.lookup.symm.trans ht
          cases hpc
    · rcases hkeep' hb with hheld | ⟨t, env, task, jobs, rfl, ht, hpc, hd⟩
      · exact .inr hheld
      · rcases hgo hd with hd | ⟨t', env', leasedUntil, e, host, d, rows, db', heq, runs, -⟩
        · exact .inl hd
        · cases heq
          cases runs.lookup.symm.trans ht
          cases hpc

theorem Doomed.step (h : Doomed p s id w) (hw : w.Sound) (hs : w.step a = some w')
    (hdiscard : s.onQueued = .discard) (hc : discardsFully p s id w a = true) :
    Doomed p s id w' := by
  have hstep := step_cases hs
  obtain ⟨cfg, hcfg⟩ := h.dispatcher
  exact ⟨h.matched.step hw (queueStep_of_step hs), fun t j hj hid => h.held_step hstep hc hj hid,
    fun r' hr' hid => h.busy_step hs hdiscard hc hr' hid, ⟨cfg, config_of_step hstep hcfg⟩,
    h.plain.step hstep⟩

end

/-! ## Complete discards -/

/-- A row is queued, and later a dispatcher has just seen a `discard` switch engaged that matches
the row, when nobody is sending the row: of a batch that it is in, its pass has not begun. -/
structure SeenQueued [UuidCrate] (p : Nat) (s : KillSwitch) (r : OutboxRow) (w1 : World)
    (bs : List Act) (w2 : World) : Prop where
  queued : r ∈ w1.db.outbox
  matched : s.matchesRow r = true
  run : Run.Steps World.step Run.Any w1 bs w2
  discard : s.onQueued = .discard
  seen : ∃ host, w2.host? p = some host ∧ host.dispatcher.isSome = true ∧
    s ∈ host.refresh.newlyEngaged
  waiting : ∀ t j, w2.Holds t j → j.id = r.commsRequestId →
    j.stage = .expiry ∨ ∃ write attempt, j.stage = .bounded write attempt

/-- The condition when the switch is seen: no loop and no drain has the row, and a discard only to
write it off. -/
def World.leftToDiscards (w : World) (id : Uuid) : Bool :=
  w.tasks.all fun task => task.pc.jobs.rows.all fun j =>
    j.id ≠ id || j.stage matches .bounded .discarded _

section
variable [UuidCrate] {w0 w1 w2 w3 : World} {as bs cs : List Act} {p : Nat} {s : KillSwitch}
  {r : OutboxRow}

theorem sound_of_steps (h0 : w0.Sound) (h : Run.Steps World.step Run.Any w0 as w1) : w1.Sound :=
  h.inv (fun _ _ _ _ hs hw => hw.of_step hs) h0

/-- Where the switch is seen, the row is doomed. -/
theorem SeenQueued.doomed (h0 : w0.Initial) (h1 : Run.Steps World.step Run.Any w0 as w1)
    (h : SeenQueued p s r w1 bs w2) (hleft : w2.leftToDiscards r.commsRequestId = true) :
    Doomed p s r.commsRequestId w2 := by
  have hw1 := sound_of_steps h0.sound h1
  have hm1 : Matched s r.commsRequestId w1.db := by
    obtain ⟨q, hq, hid, -⟩ := hw1.db.agrees.has h.queued
    refine ⟨⟨q, hq, hid⟩, fun r' hr' hid => ?_⟩
    rw [eq_of_key hr' h.queued hid]
    exact h.matched
  have hm2 : Matched s r.commsRequestId w2.db :=
    h.run.inv_of (I := fun w => Matched s r.commsRequestId w.db)
      (fun _ _ _ _ hs hw => .of_step hs hw)
      (fun _ _ _ _ hs hw hm => hm.step hw (queueStep_of_step hs)) hw1 hm1
  have hplain : w2.DiscardsAll := by
    refine (h1.append h.run).inv (fun _ _ _ _ hs hw => hw.step (step_cases hs)) ?_
    intro t p s pc ht
    rw [h0.tasks] at ht
    cases ht
  obtain ⟨host, hh, hd, hmem⟩ := h.seen
  obtain ⟨d, hd⟩ := isSome_iff_exists.1 hd
  refine ⟨hm2, fun t j hj hid => ?_,
    fun _ _ _ => .inl (discarding_iff.2 (.inl ⟨host, hh, hmem⟩)), ⟨d.cfg, ?_⟩, hplain⟩
  · obtain ⟨task, ht, hj⟩ := hj
    have hstage := all_eq_true.1 (all_eq_true.1 hleft task (mem_of_getElem? ht)) j hj
    simp only [hid, ne_eq, not_true_eq_false, decide_false, Bool.false_or] at hstage
    split at hstage
    · next attempt heq => exact ⟨attempt, heq⟩
    · cases hstage
  · simp [World.config, (host?_eq_some.1 hh).1, hd]

/-- A row that is queued when a `discard` switch is seen engaged, and left to the discard, is never
sent after that. -/
theorem discard_complete (h0 : w0.Initial) (h1 : Run.Steps World.step Run.Any w0 as w1)
    (h2 : SeenQueued p s r w1 bs w2) (hleft : w2.leftToDiscards r.commsRequestId = true)
    (h3 : Run.Steps World.step (discardsFully p s r.commsRequestId · ·) w2 cs w3) :
    ∃ obs, w3.log = w2.log ++ obs ∧ ∀ q t n, .providerCall q t r.commsRequestId n ∉ obs := by
  have hw2 := sound_of_steps h0.sound (h1.append h2.run)
  refine (h3.inv_of (J := fun w => w.Sound ∧ Doomed p s r.commsRequestId w)
    (I := fun w => ∃ obs, w.log = w2.log ++ obs ∧
      ∀ q t n, .providerCall q t r.commsRequestId n ∉ obs) ?_ ?_ ⟨hw2, h2.doomed h0 h1 hleft⟩ ?_)
  · intro w a w' hc hs hw
    exact ⟨hw.1.of_step hs, hw.2.step hw.1 hs h2.discard hc⟩
  · intro w a w' hc hs hw hlog
    obtain ⟨obs, hlog, hno⟩ := hlog
    obtain ⟨obs', hlog', -, hcall⟩ := (queueStep_of_step hs).log_cases
    refine ⟨obs ++ obs', by rw [hlog', hlog, List.append_assoc], fun q t n hmem => ?_⟩
    rcases List.mem_append.1 hmem with hmem | hmem
    · exact hno q t n hmem
    · -- whoever has the row does not call the provider
      obtain ⟨job, hjob, hid, -, hstage⟩ := hcall q t _ n hmem
      obtain ⟨attempt, hbounded⟩ := hw.2.held t job hjob hid
      rw [hstage] at hbounded
      cases hbounded
  · exact ⟨[], (List.append_nil _).symm, fun _ _ _ h => by cases h⟩

end

/-- An engaged `discard` switch over everything, for runs on fixed inputs. -/
def KillSwitch.sampleDiscard (id : Uuid) : KillSwitch :=
  { KillSwitch.sample id with onQueued := .discard }

/-- A message is accepted and the switch is engaged. -/
def acceptedThenEngaged (c : NewComms) : List Act :=
  [Act.startDispatcher .sample, .openContext] ++ Act.elect 0 ++ Act.accept 1 c ++
    [Act.engage (.sampleDiscard ⟨9⟩)]

/-- The dispatcher sees the switch. -/
def seesDiscard : List Act := [.readTenant 0 true, .readPlatform 0 true, .swap 0]

/-- Such a run, with a condition on its steps after that and what there is to check at its end. -/
def discardCheck (c : NewComms) (cond : World → Act → Bool) (cs : List Act) (q : World → Bool) :
    Bool :=
  (Run.exec (@World.step .sample) .empty (acceptedThenEngaged c)).any fun w1 =>
    c.outboxRow 0 ∈ w1.db.outbox.rows &&
    (Run.exec (@World.step .sample) w1 seesDiscard).any fun w2 =>
      ((w2.host? 0).any fun host =>
        host.dispatcher.isSome && .sampleDiscard ⟨9⟩ ∈ host.refresh.newlyEngaged) &&
      w2.tasks.all (·.pc.jobs.rows.isEmpty) && w2.log.all (!· matches .providerCall _ _ _ _) &&
      (Run.exec (fun w a => if cond w a then @World.step .sample w a else none) w2 cs).any q

/-- What `discardCheck` checks is such a run. -/
theorem exists_of_discardCheck (c : NewComms) (cond : World → Act → Bool) (cs : List Act)
    (q : World → Bool) (h : discardCheck c cond cs q = true) :
    ∃ w1 w2 w3, Run.Steps (@World.step .sample) Run.Any .empty (acceptedThenEngaged c) w1 ∧
      @SeenQueued .sample 0 (.sampleDiscard ⟨9⟩) (c.outboxRow 0) w1 seesDiscard w2 ∧
      (∀ id, w2.leftToDiscards id = true) ∧ (∀ q t id n, .providerCall q t id n ∉ w2.log) ∧
      Run.Steps (@World.step .sample) (cond · ·) w2 cs w3 ∧ q w3 = true := by
  obtain ⟨w1, h1, hp⟩ := Run.Steps.exists_of_exec _ _ _ _ h
  obtain ⟨hr, hp⟩ := and_eq_true_iff.1 hp
  obtain ⟨w2, h2, hp⟩ := Run.Steps.exists_of_exec _ _ _ _ hp
  obtain ⟨hp, h3⟩ := and_eq_true_iff.1 hp
  obtain ⟨hp, hlog⟩ := and_eq_true_iff.1 hp
  obtain ⟨hseen, hfree⟩ := and_eq_true_iff.1 hp
  obtain ⟨w3, h3, hq⟩ := Run.Steps.exists_of_checked _ cond _ _ _ h3
  obtain ⟨host, hh, hhost⟩ := (Option.any_eq_true _ _).1 hseen
  obtain ⟨hd, hmem⟩ := and_eq_true_iff.1 hhost
  have hr := of_decide_eq_true hr
  have hnil : ∀ task ∈ w2.tasks, task.pc.jobs.rows = [] := fun task ht =>
    isEmpty_iff.1 (all_eq_true.1 hfree task ht)
  refine ⟨w1, w2, w3, h1, @SeenQueued.mk .sample _ _ _ _ _ _ hr rfl h2 rfl
    ⟨host, hh, hd, of_decide_eq_true hmem⟩ ?_, ?_, ?_, h3, hq⟩
  · rintro t j ⟨task, ht, hj⟩ -
    rw [Table.mem_def, hnil task (mem_of_getElem? ht)] at hj
    cases hj
  · intro id
    refine all_eq_true.2 fun task ht => ?_
    rw [hnil task ht]
    rfl
  · intro q t id n hmem
    cases all_eq_true.1 hlog _ hmem

/-- The discard claims the message and writes it off, and the switch is released. -/
def discardedThenReleased : List Act :=
  [Act.react 0, .react 0, .task 1 {}, .claim 1 ⟨7⟩] ++ List.replicate 4 (Act.task 1 {}) ++
    [Act.release ⟨9⟩ "operator" 0] ++ Act.refresh 0 ++ List.replicate 4 (Act.task 0 {})

theorem discard_complete_discardedThenReleased :
    ∃ w1 w2 w3, Run.Steps (@World.step .sample) Run.Any .empty
        (acceptedThenEngaged (.sample ⟨7⟩ "k")) w1 ∧
      @SeenQueued .sample 0 (.sampleDiscard ⟨9⟩) ((NewComms.sample ⟨7⟩ "k").outboxRow 0) w1
        seesDiscard w2 ∧ w2.leftToDiscards ⟨7⟩ = true ∧
      Run.Steps (@World.step .sample) (@discardsFully .sample 0 (.sampleDiscard ⟨9⟩) ⟨7⟩ · ·) w2
        discardedThenReleased w3 ∧
      .terminal 0 1 ⟨7⟩ .discarded ∈ w3.log ∧
      ∃ obs, w3.log = w2.log ++ obs ∧ ∀ q t n, .providerCall q t ⟨7⟩ n ∉ obs := by
  obtain ⟨w1, w2, w3, h1, h2, hleft, -, h3, hq⟩ := exists_of_discardCheck (.sample ⟨7⟩ "k")
    (@discardsFully .sample 0 (.sampleDiscard ⟨9⟩) ⟨7⟩) discardedThenReleased
    (fun w => .terminal 0 1 ⟨7⟩ .discarded ∈ w.log) (by decide +kernel)
  exact ⟨w1, w2, w3, h1, h2, hleft _, h3, of_decide_eq_true hq,
    @discard_complete .sample _ _ _ _ _ _ _ _ _ _ World.initial_empty h1 h2 (hleft _) h3⟩

/-- A message for later. -/
def NewComms.sampleScheduled : NewComms :=
  { NewComms.sample ⟨7⟩ "k" with scheduledFor := some 100 }

/-- The discard claims nothing, the switch is released, and the due message is claimed and sent. -/
def releasedThenDue : List Act :=
  [Act.react 0, .react 0, .task 1 {}, .task 1 {}, .release ⟨9⟩ "operator" 0] ++ Act.refresh 0 ++
    List.replicate 3 (Act.task 0 {}) ++ [Act.task 0 { pick := .one ⟨7⟩, now := 200 }] ++
    List.replicate 11 (Act.task 0 {})

/-- Without the condition a row that is scheduled for later escapes the discard. -/
theorem sent_after_discard_scheduled :
    ¬ ∀ (w0 w1 w2 w3 : World) (as bs cs : List Act) (p : Nat) (s : KillSwitch) (r : OutboxRow),
      w0.Initial → Run.Steps (@World.step .sample) Run.Any w0 as w1 →
      @SeenQueued .sample p s r w1 bs w2 →
      Run.Steps (@World.step .sample) Run.Any w2 cs w3 →
      ∃ obs, w3.log = w2.log ++ obs ∧ ∀ q t n, .providerCall q t r.commsRequestId n ∉ obs := by
  intro h
  obtain ⟨w1, w2, w3, h1, h2, -, hno, h3, hq⟩ := exists_of_discardCheck .sampleScheduled
    (fun _ _ => true) releasedThenDue (fun w => .providerCall 0 0 ⟨7⟩ 1 ∈ w.log)
    (by decide +kernel)
  obtain ⟨obs, hlog, hobs⟩ := h _ w1 w2 w3 _ _ _ _ _ _ World.initial_empty h1 h2
    (h3.mono fun _ _ _ => trivial)
  have hsent := of_decide_eq_true hq
  rw [hlog] at hsent
  rcases List.mem_append.1 hsent with hsent | hsent
  · exact hno _ _ _ _ hsent
  · exact hobs _ _ _ hsent

end Messgr
