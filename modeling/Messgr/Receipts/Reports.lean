import Messgr.Receipts.Conservation

/-!
# What a run of the receipt jobs reports

The first statement that fails ends a run. So a receipt that cannot be promoted, because no
partition covers the time its provider gave it, keeps the rows behind it from being looked at
(`rows_behind_uncovered`). As long as only the last row of a list fails, every other row is handled
in the same run (`rows_handled`).

`orphan-reconcile` counts a miss as aged out or still pending by the attempts that it listed, while
`record_miss` deletes the row by those the table has by then: of two runs that overlap one deletes a
row and reports it as still pending (`deletion_not_reported`). As long as a run deletes only what
its own list had one attempt before the cap, and does not fail after a deletion, every orphan that
disappears was promoted or is in the report of the run that deleted it (`deletions_reported`).
-/

namespace Messgr.Receipts

/-! ## Rows that fail -/

/-- The row is the last one of the list of a run. -/
def Inbox.isLastListed (s : Inbox) (t : Nat) (id : Uuid) : Bool :=
  s.log.any fun
    | .listed u ids => u = t && ids.getLast? = some id
    | _ => false

section
variable [Aes256Gcm]

/-- The condition: a statement about a row fails for the last row of its run's list only. -/
def failsLast (w : World) : Act → Bool
  | .step t e =>
    match w.threads[t]? with
    | some ⟨_, .call c _⟩ => !c.fails e w.shared || c.row.all (w.shared.isLastListed t)
    | _ => true
  | _ => true

/-- The statements that the condition allows. -/
def FailsLast : Considered := fun t _ c e s =>
  (!c.fails e s || c.row.all (s.isLastListed t)) = true

theorem stopsLast_failsLast : StopsLast FailsLast := by
  intro t i c e s id hC hf hid
  simp only [FailsLast, hf, hid, Bool.not_true, Bool.false_or, Option.all_some] at hC
  obtain ⟨o, ho, hlast⟩ := List.any_eq_true.1 hC
  cases o with
  | listed u ids =>
    simp only [Bool.and_eq_true, decide_eq_true_eq] at hlast
    obtain ⟨rfl, hlast⟩ := hlast
    exact ⟨ids, ho, hlast⟩
  | _ => cases hlast

theorem considered_of_failsLast {w : World} {a : Act} (h : failsLast w a = true) :
    ∀ t e i c k, a = .step t e → w.threads[t]? = some ⟨i, .call c k⟩ →
      FailsLast t i c e w.shared := by
  rintro t e i c k rfl hth
  simp only [failsLast, hth] at h
  exact h

/-- In every run of the system in which a statement about a row fails for the last row of its list
only, a run of either job that has ended has promoted every row that it listed and that did not
fail, or handed it to `orphan_event`, or counted it as a miss. -/
theorem rows_handled (db : TenantDb) (partitions : List (Time × Time)) {as : List Act}
    {w : World} (h : Run.Steps system.step (failsLast · ·) ⟨.start db partitions, []⟩ as w)
    {t : Nat} {i : Job} {a : Except JobError Report} (ht : w.ended t = some (i, a))
    {ids : List Uuid} (hids : .listed t ids ∈ w.shared.log) :
    ∀ id ∈ ids, .failed t id ∉ w.shared.log →
      ∃ o ∈ w.shared.log, o.run = some t ∧ o.handles id = true := by
  have hpost := (holds_of_run (fun _ _ => considered_of_failsLast) h).ended ht
  have hown : .listed t ids ∈ w.shared.own t := mem_own.2 ⟨hids, rfl⟩
  intro id hid hfailed
  have hhandled : ∃ o ∈ w.shared.own t, o.handles id = true := by
    cases a with
    | ok report =>
      obtain ⟨done, hT⟩ := hpost
      rw [hT.listed ids hown, List.append_nil] at hid
      exact hT.handled id hid
    | error err =>
      refine (hpost.last stopsLast_failsLast ids hown id hid).resolve_right fun hf => ?_
      exact hfailed (mem_own.1 hf).1
  obtain ⟨o, ho, hh⟩ := hhandled
  exact ⟨o, (mem_own.1 ho).1, (mem_own.1 ho).2, hh⟩

end

/-- A receipt that is promoted and one, listed behind it, that no partition covers. -/
def coveredThenUncovered : List Act :=
  [.env (.deliver (.sample 10 .delivered 5)), .env (.deliver (.sample 11 .read 500)),
   .start .webhookPromote,
   .step 0 { staging := [.sample 10 .delivered 5, .sample 11 .read 500] },
   .step 0 {}, .step 0 {}, .step 0 {}, .step 0 { now := 7 },
   .step 0 {}, .step 0 {}, .step 0 {}, .step 0 { now := 8 }]

/-- The first is handled although the run fails. -/
theorem rows_handled_coveredThenUncovered :
    ∃ w, Run.Steps (@system .sample).step (@failsLast .sample · ·) sampleWorld coveredThenUncovered
        w ∧
      w.ended 0 = some (.webhookPromote, .error .database) ∧
      ∃ o ∈ w.shared.log, o.run = some 0 ∧ o.handles ⟨10⟩ = true := by
  obtain ⟨w, hw, hp⟩ := Run.Steps.exists_of_checked (@system .sample).step (@failsLast .sample)
    sampleWorld coveredThenUncovered
    (fun w => w.ended 0 = some (.webhookPromote, .error .database) &&
      .listed 0 [⟨10⟩, ⟨11⟩] ∈ w.shared.log && .failed 0 ⟨10⟩ ∉ w.shared.log) (by decide +kernel)
  simp only [Bool.and_eq_true, decide_eq_true_eq] at hp
  exact ⟨w, hw, hp.1.1, @rows_handled .sample _ _ _ _ hw _ _ _ hp.1.1 _ hp.1.2 _ (.head _) hp.2⟩

/-- The same two rows, listed the other way round. -/
def uncoveredThenCovered : List Act :=
  [.env (.deliver (.sample 10 .delivered 5)), .env (.deliver (.sample 11 .read 500)),
   .start .webhookPromote,
   .step 0 { staging := [.sample 11 .read 500, .sample 10 .delivered 5] },
   .step 0 {}, .step 0 {}, .step 0 {}, .step 0 { now := 7 }]

/-- The first promotion fails, and the run ends with the second row in the table: neither promoted
nor handed over nor counted, and nothing about it failed. -/
theorem rows_behind_uncovered :
    ∃ w, Run.Steps (@system .sample).step Run.Any sampleWorld uncoveredThenCovered w ∧
      w.ended 0 = some (.webhookPromote, .error .database) ∧
      .listed 0 [⟨11⟩, ⟨10⟩] ∈ w.shared.log ∧ .failed 0 ⟨10⟩ ∉ w.shared.log ∧
      StagingRow.sample 10 .delivered 5 ∈ w.shared.staging ∧
      ¬ ∃ o ∈ w.shared.log, o.run = some 0 ∧ o.handles ⟨10⟩ = true := by
  obtain ⟨w, hw, hp⟩ := Run.Steps.exists_of_exec (@system .sample).step sampleWorld
    uncoveredThenCovered
    (fun w => w.ended 0 = some (.webhookPromote, .error .database) &&
      .listed 0 [⟨11⟩, ⟨10⟩] ∈ w.shared.log && .failed 0 ⟨10⟩ ∉ w.shared.log &&
      StagingRow.sample 10 .delivered 5 ∈ w.shared.staging.rows &&
      w.shared.log.all (fun o => !(o.run = some 0 && o.handles ⟨10⟩))) (by decide +kernel)
  simp only [Bool.and_eq_true, decide_eq_true_eq] at hp
  obtain ⟨⟨⟨⟨h1, h2⟩, h3⟩, h4⟩, h5⟩ := hp
  refine ⟨w, hw, h1, h2, h3, h4, fun ⟨o, ho, hrun, hh⟩ => ?_⟩
  have hnot := List.all_eq_true.1 h5 o ho
  rw [hrun, hh] at hnot
  cases hnot

/-! ## Rows that are deleted -/

/-- A deletion of the run. -/
def Obs.isDeletion (t : Nat) : Obs → Bool
  | .deleted u _ _ => u = t
  | _ => false

section
variable [Aes256Gcm]

/-- The condition on one statement: it does not fail when its run has deleted a row, a deletion does
not lose its reply, and it removes only a row that its run listed one attempt before the cap: no
other run has counted a miss of the row since. -/
def Stmt.reportsDeletions (t : Nat) (e : Event) (s : Inbox) (c : Stmt) : Bool :=
  (!c.fails e s || !s.log.any (Obs.isDeletion t)) &&
    match c with
    | .deleteMissed row cap => (s.exhausted? row.id cap).isNone ||
      (e.reply ≠ .lost && (e.reply ≠ .ok || cap ≤ row.reconcileAttempts + 1))
    | _ => true

/-- The condition on a step. -/
def reportsDeletions (w : World) : Act → Bool
  | .step t e =>
    match w.threads[t]? with
    | some ⟨_, .call c _⟩ => c.reportsDeletions t e w.shared
    | _ => true
  | _ => true

/-- The statements that the condition allows. -/
def ReportingDeletions : Considered := fun t _ c e s => c.reportsDeletions t e s = true

/-- The condition is what reports need. -/
theorem reportsDeletions_considered : ReportsDeletions ReportingDeletions := by
  intro t i c e s hC
  simp only [ReportingDeletions, Stmt.reportsDeletions, Bool.and_eq_true, Bool.or_eq_true,
    Bool.not_eq_true'] at hC
  refine ⟨fun hf p cap hd => ?_, ?_⟩
  · have hnone := hC.1.resolve_left (by simp [hf])
    have := List.any_eq_false.1 hnone _ hd
    simp [Obs.isDeletion] at this
  · rintro row cap rfl hsome
    have hnot : (s.exhausted? row.id cap).isNone = false := by
      cases he : s.exhausted? row.id cap with
      | none => rw [he] at hsome; cases hsome
      | some r => rfl
    have h2 := hC.2
    simp only [hnot, Bool.false_eq_true, false_or, Bool.and_eq_true, Bool.or_eq_true,
      decide_eq_true_eq] at h2
    exact ⟨h2.1, fun hr => h2.2.resolve_left fun hne => hne hr⟩

theorem considered_of_reportsDeletions {w : World} {a : Act} (h : reportsDeletions w a = true) :
    ∀ t e i c k, a = .step t e → w.threads[t]? = some ⟨i, .call c k⟩ →
      ReportingDeletions t i c e w.shared := by
  rintro t e i c k rfl hth
  simp only [reportsDeletions, hth] at h
  exact h

/-- In every run of the system that meets the condition, every orphan that is no longer in the table
was promoted into `comms_event`, or deleted by a run that, once it has ended, has warned of the row
and counted it in the `aged_out` of its report. -/
theorem deletions_reported (db : TenantDb) (partitions : List (Time × Time))
    {as : List Act} {w : World}
    (h : Run.Steps system.step (reportsDeletions · ·) ⟨.start db partitions, []⟩ as w)
    {p : PendingReceipt} (hp : ⟨.orphan, p⟩ ∈ w.shared.born)
    (hgone : ∀ r ∈ w.shared.orphans, r.id ≠ p.id) :
    (∃ x, .promoted x ∈ w.shared.log ∧ x.held = .orphan ∧ x.receipt.toPendingReceipt = p ∧
      ∃ e ∈ w.shared.db.commsEvent, e.key = x.eventKey) ∨
    ∃ t cap, .deleted t p cap ∈ w.shared.log ∧
      ∀ i a, w.ended t = some (i, a) → ∃ report, a = .ok (.reconcile report) ∧
        .agedOut t p.id ∈ w.shared.log ∧
        report.agedOut = (w.shared.own t).countP Obs.isAgedOut := by
  have hw := holds_of_run (fun _ _ => considered_of_reportsDeletions) h
  rcases accounted_of_run h _ hp with ⟨x, hx, hheld, hxp⟩ | ⟨r, hr, hrp⟩ | ⟨t, cap, hd⟩
  · exact .inl ⟨x, hx, hheld, hxp, (hw.inv.log _ hx).2⟩
  · exact absurd (congrArg PendingReceipt.id hrp) (hgone r hr)
  · refine .inr ⟨t, cap, hd, fun i a ht => ?_⟩
    have hpost := hw.ended ht
    have hown : .deleted t p cap ∈ w.shared.own t := mem_own.2 ⟨hd, rfl⟩
    cases a with
    | error err => exact absurd hown (hpost.deleted reportsDeletions_considered p cap)
    | ok report =>
      obtain ⟨done, hT⟩ := hpost
      have haged := hT.reported reportsDeletions_considered p cap hown
      cases report with
      | promote report =>
        -- a promoter reports no deletion
        have hzero := List.countP_eq_zero.1 hT.aged _ haged
        exact absurd rfl hzero
      | reconcile report => exact ⟨report, rfl, (mem_own.1 haged).1, hT.aged.symm⟩

end

/-- A tenant without requests. -/
def emptyWorld : World := ⟨.start .empty [(0, 100)], []⟩

/-- A row of `orphan_event`. -/
def OrphanRow.sample (attempts : Nat) : OrphanRow := ⟨.sample 20 .delivered 5, some [], attempts⟩

/-- A receipt without a request is handed over. -/
def handedOver : List Act :=
  [.env (.deliver (.sample 10 .delivered 5)), .start .webhookPromote,
   .step 0 { staging := [.sample 10 .delivered 5] }, .step 0 {}, .step 0 { newId := ⟨20⟩ }]

/-- A run with the cap 1 deletes it. -/
def deletedByOneRun : List Act :=
  handedOver ++ ([.start (.orphanReconcile 1), .step 1 { orphans := [.sample 0] }, .step 1 {},
    .step 1 {}, .step 1 {}, .step 1 {}] : List Act)

/-- The run reports that. -/
theorem deletions_reported_deletedByOneRun :
    ∃ w, Run.Steps (@system .sample).step (@reportsDeletions .sample · ·) emptyWorld deletedByOneRun
        w ∧
      w.ended 1 = some (.orphanReconcile 1, .ok (.reconcile ⟨0, 1, 0⟩)) ∧
      ((∃ x, .promoted x ∈ w.shared.log ∧ x.held = .orphan ∧
        x.receipt.toPendingReceipt = .sample 20 .delivered 5 ∧
        ∃ e ∈ w.shared.db.commsEvent, e.key = x.eventKey) ∨
      ∃ t cap, .deleted t (.sample 20 .delivered 5) cap ∈ w.shared.log ∧
        ∀ i a, w.ended t = some (i, a) → ∃ report, a = .ok (.reconcile report) ∧
          .agedOut t ⟨20⟩ ∈ w.shared.log ∧
          report.agedOut = (w.shared.own t).countP Obs.isAgedOut) := by
  obtain ⟨w, hw, hp⟩ := Run.Steps.exists_of_checked (@system .sample).step
    (@reportsDeletions .sample) emptyWorld deletedByOneRun
    (fun w => w.ended 1 = some (.orphanReconcile 1, .ok (.reconcile ⟨0, 1, 0⟩)) &&
      ⟨.orphan, .sample 20 .delivered 5⟩ ∈ w.shared.born.rows && w.shared.orphans.rows = [])
    (by decide +kernel)
  simp only [Bool.and_eq_true, decide_eq_true_eq] at hp
  refine ⟨w, hw, hp.1.1, @deletions_reported .sample _ _ _ _ hw _ hp.1.2 fun r hr => ?_⟩
  rw [Table.mem_def, hp.2] at hr
  cases hr

/-- Two runs with the cap 2 list the row before either counts its miss. -/
def deletedByTwoRuns : List Act :=
  handedOver ++ ([.start (.orphanReconcile 2), .start (.orphanReconcile 2),
    .step 1 { orphans := [.sample 0] }, .step 2 { orphans := [.sample 0] },
    .step 1 {}, .step 2 {}, .step 1 {}, .step 1 {}, .step 2 {}, .step 2 {}] : List Act)

/-- The row is deleted at its second miss. Both runs report it as still pending, and neither warns
of it. -/
theorem deletion_not_reported :
    ∃ w, Run.Steps (@system .sample).step Run.Any emptyWorld deletedByTwoRuns w ∧
      ⟨.orphan, .sample 20 .delivered 5⟩ ∈ w.shared.born ∧ w.shared.orphans.rows = [] ∧
      (¬ ∃ x, .promoted x ∈ w.shared.log) ∧
      w.ended 1 = some (.orphanReconcile 2, .ok (.reconcile ⟨0, 0, 1⟩)) ∧
      w.ended 2 = some (.orphanReconcile 2, .ok (.reconcile ⟨0, 0, 1⟩)) ∧
      ¬ ∃ t id, .agedOut t id ∈ w.shared.log := by
  obtain ⟨w, hw, hp⟩ := Run.Steps.exists_of_exec (@system .sample).step emptyWorld deletedByTwoRuns
    (fun w => ⟨.orphan, .sample 20 .delivered 5⟩ ∈ w.shared.born.rows &&
      w.shared.orphans.rows = [] &&
      w.ended 1 = some (.orphanReconcile 2, .ok (.reconcile ⟨0, 0, 1⟩)) &&
      w.ended 2 = some (.orphanReconcile 2, .ok (.reconcile ⟨0, 0, 1⟩)) &&
      w.shared.log.all fun | .promoted _ | .agedOut _ _ => false | _ => true) (by decide +kernel)
  simp only [Bool.and_eq_true, decide_eq_true_eq] at hp
  obtain ⟨⟨⟨⟨h1, h2⟩, h3⟩, h4⟩, h5⟩ := hp
  refine ⟨w, hw, h1, h2, fun ⟨x, hx⟩ => ?_, h3, h4, fun ⟨t, id, ht⟩ => ?_⟩
  · cases List.all_eq_true.1 h5 _ hx
  · cases List.all_eq_true.1 h5 _ ht

end Messgr.Receipts
