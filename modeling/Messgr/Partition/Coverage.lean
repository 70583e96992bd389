import Messgr.Partition.Retention

/-!
# The months that the partition lifecycle covers

Runs one after the other, from the partitions of the bootstrap migration on. `Maintained` is what
every complete run keeps (`Maintained.completes`). Where the names of the months are not taken by
other tables or by indexes (`NamesFree`), the month of the last run and the next one are covered by
one partition each, and the same run again changes nothing (`lifecycle_covers`). The run looks for a
partition by its name alone: a table or an index that has the name, but is no partition of the
table, leaves the month without one (`month_not_covered`).
-/

namespace Messgr.Partition

open List Option

/-! ## Runs from the bootstrap on -/

section
variable (ix : NewIndexes) (retentionYears : Int)

/-- Complete runs as of the given instants. -/
def CompleteRuns : Catalogue → List Time → Catalogue → Prop
  | db, [], d => d = db
  | db, asOf :: rest, d =>
    ∃ c, Completes ix (monthStart asOf) (some retentionYears) db c ∧ CompleteRuns c rest d

end

/-- A partition whose name is of no month of the table, and that ends by the start of `first`. -/
structure Relation.Legacy (r : Relation) (t : PartitionedTable) (first : Int) : Prop where
  name : parsePartitionMonth t r.name = none
  ends : ∃ lower upper, r.bounds = .range lower (some upper) ∧ upper ≤ startOf first

/-- The partitions of a tenant provisioned in the month `first`: those of the bootstrap, and older
ones whose names are none of a month. Source: `migrations/tenant/0004_ledger_outbox_schema.sql`. -/
structure Provisioned (first : Int) (db : Catalogue) : Prop where
  bootstrap : ∀ t m, m = first ∨ m = first + 1 → ∃ r ∈ db, r.IsMonth t m ∧ r.tablespace = none
  others : ∀ r ∈ db, ∀ t, r.parent = some t →
    (∃ m, (m = first ∨ m = first + 1) ∧ r.IsMonth t m) ∨ r.Legacy t first

/-- The partition names of the months from `first` to `last` are of no index, and only of partitions
of the table. -/
def NamesFree (first last : Int) (db : Catalogue) : Prop :=
  ∀ r ∈ db, ∀ t m, first ≤ m → m ≤ last → partitionName t m ∈ r.names →
    r.name = partitionName t m ∧ r.parent = some t

/-- After some runs that began in `db`. -/
structure Maintained (first last : Int) (db d : Catalogue) : Prop where
  attached : ∀ r ∈ d, ∀ t, r.parent = some t → (∃ m, r.IsMonth t m) ∨ r.Legacy t first
  names : NamesFree first last d
  kept : ∀ r ∈ db, ∀ t, r.parent = some t → parsePartitionMonth t r.name = none → r ∈ d

section
variable {ix : NewIndexes} {m first last years : Int}
variable {t u : PartitionedTable} {r r' : Relation} {db c c' d : Catalogue} {n : String}
variable {k : Int} {x : Time} {asOfs : List Time}

/-! ## What a run keeps -/

theorem Relation.Legacy.chill (h : r.Legacy u first) : (chill m t r).Legacy u first := by
  rcases chill_eq_or with heq | heq
  · rwa [heq]
  · rw [heq]
    exact ⟨h.name, h.ends⟩

theorem parent_chill : (chill m t r).parent = r.parent := by
  rcases chill_eq_or with heq | heq
  · rw [heq]
  · rw [heq]
    rfl

/-- A name that is none of a month of its table is never due. -/
theorem not_due_of_parse {years : Option Int} (hp : r.parent = some u)
    (hn : parsePartitionMonth u r.name = none) :
    dropDue m years t r = false ∧ moveDue m t r = false := by
  by_cases htu : t = u
  · subst htu
    constructor
    · refine Bool.eq_false_iff.2 fun h => ?_
      obtain ⟨-, m', hm', -⟩ := dropDue_true h
      rw [hn] at hm'
      cases hm'
    · refine Bool.eq_false_iff.2 fun h => ?_
      obtain ⟨-, -, m', hm', -⟩ := moveDue_true h
      rw [hn] at hm'
      cases hm'
  · exact not_due_of_parent (by rw [hp]; exact fun h => htu (Option.some.inj h).symm)

/-- A run for a table keeps the months covered. -/
theorem Maintained.finishTable {years : Option Int} (h : Maintained first last db c)
    (hf : finishTable ix m years t c = some c') : Maintained first last db c' := by
  refine ⟨fun r' hr' u hu => ?_, fun r' hr' u k hk hk' hn => ?_, fun r hr u hu hn => ?_⟩
  · rcases row_of_finishTable hf hr' with ⟨r, hr, -, rfl⟩ | ⟨k, -, hnew, -⟩
    · rw [parent_chill] at hu
      rcases h.attached r hr u hu with ⟨k, hk⟩ | hlegacy
      · exact .inl ⟨k, hk.chill⟩
      · exact .inr hlegacy.chill
    · cases hnew.parent.symm.trans hu
      exact .inl ⟨k, hnew.toIsMonth⟩
  · rcases row_of_finishTable hf hr' with ⟨r, hr, -, rfl⟩ | ⟨k', -, hnew, -⟩
    · rw [names_chill] at hn
      rw [name_chill, parent_chill]
      exact h.names r hr u k hk hk' hn
    · have hname := hnew.names u k hn
      by_cases htu : t = u
      · exact ⟨hname, htu ▸ hnew.parent⟩
      · exact absurd (hnew.name.symm.trans hname) (partitionName_ne htu)
  · exact mem_finishTable hf (h.kept r hr u hu hn) (not_due_of_parse hu hn)

theorem Completes.finished {years : Option Int} (h : Completes ix m years c d) :
    Finished ix m years c d :=
  h.elim fun _ hsteps => always_run.steps hsteps

theorem Maintained.completes {years : Option Int} (h : Maintained first last db c)
    (hc : Completes ix m years c d) : Maintained first last db d := by
  obtain ⟨-, c1, h1, h2⟩ := finish_some hc.finished.same
  exact (h.finishTable h1).finishTable h2

/-- Along all the runs, up to the last one. -/
theorem Maintained.completeRuns {asOf : Time} (h : Maintained first last db c)
    (hruns : CompleteRuns ix years c (asOfs ++ [asOf]) d) :
    ∃ c', Maintained first last db c' ∧ Completes ix (monthStart asOf) (some years) c' d := by
  induction asOfs generalizing c with
  | nil =>
    obtain ⟨c', hc, rfl⟩ := hruns
    exact ⟨c, h, hc⟩
  | cons a rest ih =>
    obtain ⟨c', hc, hrest⟩ := hruns
    exact ih (h.completes hc) hrest

theorem Provisioned.maintained (h : Provisioned first db) (hn : NamesFree first last db) :
    Maintained first last db db := by
  refine ⟨fun r hr t ht => ?_, hn, fun r hr _ _ _ => hr⟩
  rcases h.others r hr t ht with ⟨m, -, hm⟩ | hlegacy
  · exact .inl ⟨m, hm⟩
  · exact .inr hlegacy

/-! ## Coverage -/

theorem contains_month :
    (Bounds.month k).contains x = true ↔ startOf k ≤ x ∧ x < startOf (k + 1) := by
  simp [Bounds.contains, Bounds.month]

/-- The partition of a month, of a table with no other claim to its name. -/
theorem Maintained.isMonth (h : Maintained first last db d) (hk : first ≤ k) (hk' : k ≤ last)
    (h0 : 0 ≤ k) (h1 : k < 120000) (hr : r ∈ d) (hn : r.name = partitionName t k) :
    r.IsMonth t k := by
  have hp := (h.names r hr t k hk hk' (hn ▸ mem_cons_self)).2
  rcases h.attached r hr t hp with ⟨q, hq⟩ | hlegacy
  · obtain rfl := partitionName_injective (hq.name.symm.trans hn)
    exact hq
  · have hparse : parsePartitionMonth t (partitionName t k) = some k :=
      parse_partitionName_of_year (by unfold year; omega) (by unfold year; omega)
    rw [← hn, hlegacy.name] at hparse
    cases hparse

/-- An instant of a month that has its partition is in no other partition. -/
theorem Maintained.unique (h : Maintained first last db d) (hk : first ≤ k) (hr : r ∈ d)
    (hmonth : r.IsMonth t k) (hx : startOf k ≤ x) (hx' : x < startOf (k + 1)) (hr' : r' ∈ d)
    (hp : r'.parent = some t) (hcontains : r'.bounds.contains x = true) : r' = r := by
  rcases h.attached r' hr' t hp with ⟨q, hq⟩ | hlegacy
  · rw [hq.bounds, contains_month] at hcontains
    have h1 : q < k + 1 := startOf_lt_iff.1 (Int.lt_of_le_of_lt hcontains.1 hx')
    have h2 : k < q + 1 := startOf_lt_iff.1 (Int.lt_of_le_of_lt hx hcontains.2)
    obtain rfl : q = k := by omega
    exact Table.eq_of_key hr' hr (hq.name.trans hmonth.name.symm)
  · obtain ⟨lower, upper, hbounds, hupper⟩ := hlegacy.ends
    rw [hbounds] at hcontains
    simp only [Bounds.contains, Bool.and_eq_true, all_some, decide_eq_true_eq] at hcontains
    have hle : upper ≤ x := Int.le_trans hupper (Int.le_trans (startOf_le_iff.2 hk) hx)
    exact absurd hcontains.2 (Int.not_lt.2 hle)

/-- A run leaves the tables of both months. -/
theorem Maintained.ahead {years : Option Int} (h : Maintained first (m + 1) db c)
    (hc : Completes ix m years c d) (hfirst : first ≤ m) (t : PartitionedTable) : Ahead m t d := by
  intro k hk
  rcases hc.finished.months t k hk with ⟨r, hr, hmem, -⟩ | hex
  · exact hc.finished.stays t k hk ⟨r, hr, (h.names r hr t k (by omega) (by omega) hmem).1⟩
  · exact hex

/-- Both months have their partitions and no others. -/
theorem Maintained.covers (h : Maintained first (m + 1) db d) (hahead : Ahead m t d)
    (hfirst : first ≤ m) (h0 : 0 ≤ m) (h1 : m + 1 < 120000) (hx : startOf m ≤ x)
    (hx' : x < startOf (m + 2)) :
    ∃ r ∈ d, (r.parent = some t ∧ r.bounds.contains x = true) ∧
      ∀ r' ∈ d, r'.parent = some t → r'.bounds.contains x = true → r' = r := by
  obtain ⟨k, hk, hle, hlt⟩ :
      ∃ k, (k = m ∨ k = m + 1) ∧ startOf k ≤ x ∧ x < startOf (k + 1) := by
    by_cases hcurrent : x < startOf (m + 1)
    · exact ⟨m, .inl rfl, hx, hcurrent⟩
    · exact ⟨m + 1, .inr rfl, Int.not_lt.1 hcurrent, by rwa [Int.add_assoc]⟩
  obtain ⟨r, hr, hn⟩ := hahead k hk
  have hmonth : r.IsMonth t k :=
    h.isMonth (by omega) (by omega) (by omega) (by omega) hr hn
  refine ⟨r, hr, ⟨hmonth.parent, ?_⟩, fun r' hr' => h.unique (by omega) hr hmonth hle hlt hr'⟩
  rw [hmonth.bounds, contains_month]
  exact ⟨hle, hlt⟩

/-- What has the name of a month has its bounds, and is not due to be dropped. -/
theorem Maintained.ends_after {b month : Int} (h : Maintained first last db d)
    (hsettled : Settled m (some years) t d)
    (hb : subtractMonths m (retentionMonths years) = some b) (hr : r ∈ d)
    (hp : r.parent = some t) (hparse : parsePartitionMonth t r.name = some month) :
    r.bounds = .month month ∧ b < month + 1 := by
  constructor
  · rcases h.attached r hr t hp with ⟨q, hq⟩ | hlegacy
    · obtain rfl := parse_partitionName (hq.name ▸ hparse)
      exact hq.bounds
    · rw [hlegacy.name] at hparse
      cases hparse
  · refine Int.not_le.1 fun hle => ?_
    have hdue : dropDue m (some years) t r = true := by
      rw [dropDue, dropBoundary, bind_some, hb, any_some, endedBy_iff hp hparse]
      exact hle
    rw [(hsettled r hr).1] at hdue
    cases hdue

/-! ## The same run again -/

variable (ix d) in
/-- The program changes nothing and returns `a`. -/
abbrev Idle (p : Action α) (a : α) : Prop :=
  Prog.Always (exec ix) (fun _ s => s = d) False (fun b s => b = a ∧ s = d) p d

theorem idle_expect {o : Option Int} {date : Int} (ho : o = some date) :
    Idle ix d (expect o) date := by
  subst ho
  exact ⟨rfl, rfl⟩

theorem Idle.bind {p : Action α} {f : α → Action β} {a : α} {b : β} (hp : Idle ix d p a)
    (hf : Idle ix d (f a) b) : Idle ix d (p >>= f) b := by
  refine Prog.Always.bind hp fun a' s h => ?_
  obtain ⟨rfl, rfl⟩ := h
  exact hf

theorem idle_collect {f : γ → Action (Option β)} {cs : List γ}
    (hf : ∀ c ∈ cs, Idle ix d (f c) none) : Idle ix d (Prog.collect f cs) [] := by
  induction cs with
  | nil => exact ⟨rfl, rfl⟩
  | cons c cs ih =>
    refine (hf c mem_cons_self).bind ?_
    exact (ih fun c hc => hf c (.tail _ hc)).bind ⟨rfl, rfl⟩

theorem idle_createAhead (h : d.taken (partitionName t m) = true) :
    Idle ix d (createAhead t m) none := by
  have hfound : Idle ix d (partitionExists (partitionName t m)) true := by
    refine ⟨rfl, fun found s' hx => ?_⟩
    obtain ⟨hfound, hx⟩ := ite_none_right_eq_some.1 hx
    exact ⟨hfound.trans h, (Option.some.inj hx).symm⟩
  exact hfound.bind ⟨rfl, rfl⟩

theorem always_listed :
    Prog.Always (exec ix) (fun _ s => s = d) False
      (fun ps s => s = d ∧ ps.Perm ((d.attached t).filterMap (partitionInfo t)))
      (listPartitions t) d := by
  refine .bind (P := fun rows s => s = d ∧ rows.Perm (d.attached t))
    (.stmt rfl fun rows s hx => ?_) fun rows s h => ⟨h.1, h.2.filterMap _⟩
  obtain ⟨hperm, hx⟩ := ite_none_right_eq_some.1 hx
  exact ⟨(Option.some.inj hx).symm, hperm⟩

theorem idle_moveOld {p : PartitionInfo} (hend : addMonths p.monthStart 1 = some (p.monthStart + 1))
    (hp : ¬ Moves m p) : Idle ix d (moveOld (m - moveAfterMonths) p) none := by
  unfold Moves at hp
  refine (idle_expect hend).bind ?_
  rw [if_neg hp]
  exact ⟨rfl, rfl⟩

theorem idle_dropOld {p : PartitionInfo} {b : Int}
    (hend : addMonths p.monthStart 1 = some (p.monthStart + 1)) (hp : ¬ p.monthStart + 1 ≤ b) :
    Idle ix d (dropOld t b p) none := by
  refine (idle_expect hend).bind ?_
  rw [if_neg hp]
  exact ⟨rfl, rfl⟩

/-- A run for a table with nothing left to do changes nothing. -/
theorem idle_runTable {b : Int} (hnamed : Named m t d) (hsettled : Settled m (some years) t d)
    (hb : subtractMonths m (retentionMonths years) = some b) :
    Idle ix d (runTable m (m + 1) (m - moveAfterMonths) (some years) t) (some {}) := by
  have hcreated : Idle ix d (.collect (createAhead t) [m, m + 1]) [] := by
    refine idle_collect fun k hk => idle_createAhead (hnamed k ?_)
    simpa using hk
  refine hcreated.bind (always_listed.bind fun ps s h => ?_)
  obtain ⟨rfl, hps⟩ := h
  have hmoves : Todo t (Moves m) (moveDue m t) ps s := todo_moves hps
  have hdrops : Todo t (Drops m (some years)) (dropDue m (some years) t) ps s := todo_drops hps
  have hend : ∀ p ∈ ps, addMonths p.monthStart 1 = some (p.monthStart + 1) :=
    fun p hp => addMonths_parsed (hmoves.parsed p hp)
  have hmoved : Idle ix s (.collect (moveOld (m - moveAfterMonths)) ps) [] := by
    refine idle_collect fun p hp => idle_moveOld (hend p hp) fun hacts => ?_
    obtain ⟨r, hr, hdue, -⟩ := (hmoves.iff p.name).1 ⟨p, hp, hacts, rfl⟩
    rw [(hsettled r hr).2] at hdue
    cases hdue
  have hdropped : Idle ix s (.collect (dropOld t b) ps) [] := by
    refine idle_collect fun p hp => idle_dropOld (hend p hp) fun hle => ?_
    have hacts : Drops m (some years) p := ⟨b, by rw [dropBoundary, bind_some, hb], hle⟩
    obtain ⟨r, hr, hdue, -⟩ := (hdrops.iff p.name).1 ⟨p, hp, hacts, rfl⟩
    rw [(hsettled r hr).1] at hdue
    cases hdue
  exact hmoved.bind ((idle_expect hb).bind (hdropped.bind ⟨rfl, rfl⟩))

section
variable (h : Completes ix m (some years) c d) (hahead : ∀ t, Ahead m t d)
include h

theorem Completes.dates :
    inRange (m + 1) = true ∧ inRange (m - moveAfterMonths) = true ∧
      subtractMonths m (retentionMonths years) = some (m - 12 * years % 4294967296) := by
  have hpanics := (finish_some h.finished.same).1
  simp only [panics, Bool.or_eq_false_iff, isNone_eq_false_iff, any_some] at hpanics
  obtain ⟨⟨hnext, hmove⟩, hdrop⟩ := hpanics
  obtain ⟨next, hnext⟩ := isSome_iff_exists.1 hnext
  obtain ⟨move, hmove⟩ := isSome_iff_exists.1 hmove
  obtain ⟨drop, hdrop⟩ := isSome_iff_exists.1 hdrop
  refine ⟨(ite_none_right_eq_some.1 hnext).1, (ite_none_right_eq_some.1 hmove).1, ?_⟩
  rw [hdrop, subtractMonths_some hdrop, retentionMonths_eq]

include hahead

/-- After a complete run that left the tables of both months, it can be completed again. -/
theorem Completes.again : ∃ d', Completes ix m (some years) d d' := by
  have hsome : (Partition.finish ix m (some years) d).isSome = true :=
    isSome_finish_of_ahead (finish_some h.finished.same).1 (hahead _) (hahead _)
  obtain ⟨report, d', hsteps, -⟩ := always_run.returns (isSome_iff_ne_none.1 hsome)
    fun q s h => h.possible hsome
  exact ⟨d', report, hsteps⟩

/-- A run from where a run as of the same month ended. -/
theorem idle_run : Idle ix d (run m (some years)) {} := by
  obtain ⟨hnext, hmove, hdrop⟩ := h.dates
  have hidle : ∀ t, Idle ix d (runTable m (m + 1) (m - moveAfterMonths) (some years) t)
      (some {}) := fun t => idle_runTable (hahead t).named (h.finished.settled t) hdrop
  rw [run_eq hnext hmove]
  refine .bind (a := [{}, {}]) ?_ ⟨rfl, rfl⟩
  refine (hidle _).bind ?_
  exact .bind (a := [{}]) ((hidle _).bind ⟨rfl, rfl⟩) ⟨rfl, rfl⟩

/-- Such a run changes nothing wherever it stops, and reports nothing. -/
theorem Completes.unchanged {p : Action LifecycleReport}
    (hsteps : Interrupted ix m (some years) d p c') :
    c' = d ∧ ∀ report, p = .ret report → report = {} := by
  have hat := Prog.Always.steps (idle_run h hahead) hsteps
  cases p with
  | ret report =>
    refine ⟨hat.2, fun report' hreport => ?_⟩
    cases hreport
    exact hat.1
  | fail e => exact hat.elim
  | call q k => exact ⟨hat.1, nofun⟩

end

end

/-- After complete runs as of instants that do not decrease, from the provisioning on and in the
years up to 9998: every instant of the last month and of the next one is in exactly one attached
partition, what has no name of a month is as it was, what has one ends after the drop boundary, and
the last run again completes, changes nothing and reports nothing. -/
theorem lifecycle_covers (ix : NewIndexes) (provisioned : Time) (retentionYears : Int)
    (db d : Catalogue) (asOfs : List Time) (asOf : Time) (hprovisioned : startOf 12 ≤ provisioned)
    (hyears : 0 ≤ retentionYears ∧ retentionYears ≤ 1000)
    (hdb : Provisioned (monthStart provisioned) db)
    (hnames : NamesFree (monthStart provisioned) (monthStart asOf + 1) db)
    (hsorted : (provisioned :: (asOfs ++ [asOf])).Pairwise (· ≤ ·))
    (hlast : asOf < startOf (12 * 9999))
    (hruns : CompleteRuns ix retentionYears db (asOfs ++ [asOf]) d) :
    (∀ t, (∀ x, startOf (monthStart asOf) ≤ x → x < startOf (monthStart asOf + 2) →
        ∃ r ∈ d, (r.parent = some t ∧ r.bounds.contains x = true) ∧
          ∀ r' ∈ d, r'.parent = some t → r'.bounds.contains x = true → r' = r) ∧
      (∀ r ∈ db, r.parent = some t → parsePartitionMonth t r.name = none → r ∈ d) ∧
      ∀ r ∈ d, r.parent = some t → ∀ month, parsePartitionMonth t r.name = some month →
        r.bounds = .month month ∧ monthStart asOf - 12 * retentionYears < month + 1) ∧
    (∃ d', Completes ix (monthStart asOf) (some retentionYears) d d') ∧
    ∀ p c, Interrupted ix (monthStart asOf) (some retentionYears) d p c →
      c = d ∧ ∀ report, p = .ret report → report = {} := by
  obtain ⟨c', hmaintained', hc'⟩ := (hdb.maintained hnames).completeRuns hruns
  obtain ⟨-, -, hdrop⟩ := hc'.dates
  have hmaintained := hmaintained'.completes hc'
  have hle : provisioned ≤ asOf := (List.pairwise_cons.1 hsorted).1 asOf (by simp)
  have hfirst : monthStart provisioned ≤ monthStart asOf := monthStart_mono hle
  have hahead := hmaintained'.ahead hc' hfirst
  have h0 : 12 < monthStart provisioned + 1 :=
    startOf_lt_iff.1 (Int.lt_of_le_of_lt hprovisioned (monthStart_spec provisioned).2)
  have h1 : monthStart asOf < 12 * 9999 :=
    startOf_lt_iff.1 (Int.lt_of_le_of_lt (monthStart_spec asOf).1 hlast)
  have hexact : 12 * retentionYears % 4294967296 = 12 * retentionYears := by omega
  rw [hexact] at hdrop
  refine ⟨fun t => ⟨fun x hx hx' => ?_, fun r hr hp hn => ?_, fun r hr hp month hparse => ?_⟩,
    hc'.again hahead, fun p c hsteps => hc'.unchanged hahead hsteps⟩
  · exact hmaintained.covers (hahead t) hfirst (by omega) (by omega) hx hx'
  · exact hmaintained.kept r hr t hp hn
  · exact hmaintained.ends_after (hc'.finished.settled t) hdrop hr hp hparse

/-! ## Fixed runs -/

/-- A complete run by its statements. -/
theorem exists_completes (m : Int) (years : Option Int) (db : Catalogue) (P : Catalogue → Bool)
    (h : ((runFor m years 40 db).any fun stop => stop.1.value.isSome && P stop.2) = true) :
    ∃ d, Completes .none m years db d ∧ P d = true := by
  obtain ⟨⟨p, d⟩, hrun, h⟩ := (Option.any_eq_true _ _).1 h
  obtain ⟨hvalue, hP⟩ := Bool.and_eq_true_iff.1 h
  obtain ⟨report, hvalue⟩ := isSome_iff_exists.1 hvalue
  obtain rfl := Prog.value_some hvalue
  exact ⟨d, ⟨report, Prog.walk_steps hrun⟩, hP⟩

/-- A partition of `comms_request` from before 2015, under the given name. -/
def old (name : String) : Relation :=
  { name, parent := some .commsRequest, bounds := .range none (some (startOf 24180)),
    tablespace := none, indexes := [] }

/-- Provisioned in November 2026, with an old partition. -/
def sampleTenant (name : String) : Catalogue :=
  Table.ofList (twoMonths sampleMonth ++ [old name])

variable {name : String}

theorem mem_sampleTenant {r : Relation} (h : r ∈ sampleTenant name) :
    (∃ t m, (m = sampleMonth ∨ m = sampleMonth + 1) ∧ r = monthly t m) ∨ r = old name := by
  have hr := Table.mem_of_mem_ofList h
  simp only [twoMonths, cons_append, nil_append, mem_cons, not_mem_nil, or_false] at hr
  rcases hr with hr | hr | hr | hr | hr
  · exact .inl ⟨_, _, .inl rfl, hr⟩
  · exact .inl ⟨_, _, .inr rfl, hr⟩
  · exact .inl ⟨_, _, .inl rfl, hr⟩
  · exact .inl ⟨_, _, .inr rfl, hr⟩
  · exact .inr hr

theorem table_of_partitionName {t u : PartitionedTable} {m k : Int}
    (h : partitionName t m = partitionName u k) : t = u := by
  by_contra hne
  exact partitionName_ne hne h

/-- The sample is provisioned, whatever the old name. -/
theorem provisioned_sampleTenant (h : parsePartitionMonth .commsRequest name = none)
    (hne : ∀ t m, m = sampleMonth ∨ m = sampleMonth + 1 → name ≠ partitionName t m) :
    Provisioned sampleMonth (sampleTenant name) := by
  refine ⟨fun t m hm => ?_, fun r hr t ht => ?_⟩
  · obtain ⟨r, hr, hname⟩ : Exists (sampleTenant name) (partitionName t m) := ahead_ofList m hm
    rcases mem_sampleTenant hr with ⟨u, k, -, rfl⟩ | rfl
    · obtain rfl := table_of_partitionName hname
      obtain rfl := partitionName_injective hname
      exact ⟨_, hr, ⟨rfl, rfl, rfl⟩, rfl⟩
    · exact absurd hname (hne t m hm)
  · rcases mem_sampleTenant hr with ⟨u, k, hk, rfl⟩ | rfl
    · cases ht
      exact .inl ⟨k, hk, rfl, rfl, rfl⟩
    · cases ht
      exact .inr ⟨h, none, _, rfl, by decide⟩

theorem namesFree_sampleTenant (h : ∀ t, parsePartitionMonth t name = none) :
    NamesFree sampleMonth 24324 (sampleTenant name) := by
  intro r hr t m hm hm' hname
  rcases mem_sampleTenant hr with ⟨u, k, -, rfl⟩ | rfl
  · have heq : partitionName t m = partitionName u k := mem_singleton.1 hname
    exact ⟨heq.symm, congrArg some (table_of_partitionName heq).symm⟩
  · have hparse : parsePartitionMonth t (partitionName t m) = some m := by
      unfold sampleMonth at hm
      exact parse_partitionName_of_year (by unfold year; omega) (by unfold year; omega)
    rw [show partitionName t m = name from mem_singleton.1 hname, h t] at hparse
    cases hparse

/-- The run of December beside an old partition with a name of its own. -/
theorem lifecycle_covers_december :
    ∃ d, Provisioned sampleMonth (sampleTenant "comms_request_legacy") ∧
      NamesFree sampleMonth 24324 (sampleTenant "comms_request_legacy") ∧
      CompleteRuns .none 7 (sampleTenant "comms_request_legacy") [startOf 24323] d ∧
      ∀ t x, startOf 24323 ≤ x → x < startOf 24325 →
        ∃ r ∈ d, r.parent = some t ∧ r.bounds.contains x = true := by
  have hdb : Provisioned sampleMonth (sampleTenant "comms_request_legacy") := by
    refine provisioned_sampleTenant (by decide) fun t m hm => ?_
    rcases hm with rfl | rfl <;> cases t <;> decide
  have hnames : NamesFree sampleMonth 24324 (sampleTenant "comms_request_legacy") :=
    namesFree_sampleTenant fun t => by cases t <;> decide
  have hmonth : monthStart (startOf 24323) = 24323 := by decide
  obtain ⟨d, hd, -⟩ := exists_completes 24323 (some 7) (sampleTenant "comms_request_legacy")
    (fun _ => true) (by decide +kernel)
  have hruns : CompleteRuns .none 7 (sampleTenant "comms_request_legacy")
      [startOf 24323] d := ⟨d, hmonth.symm ▸ hd, rfl⟩
  obtain ⟨hcovers, -⟩ := lifecycle_covers _ sampleInstant 7 _ d [] (startOf 24323) (by decide)
    (by decide) hdb hnames (by decide) (by decide) hruns
  refine ⟨d, hdb, hnames, hruns, fun t x hx hx' => ?_⟩
  obtain ⟨r, hr, hin, -⟩ := (hcovers t).1 x (hmonth.symm ▸ hx) (hmonth.symm ▸ hx')
  exact ⟨r, hr, hin⟩

/-- A table `comms_event_2027_01` that is an old partition of `comms_request`: the run of December
2026 creates no partition of `comms_event` for January. -/
theorem month_not_covered :
    ∃ d, Provisioned sampleMonth (sampleTenant "comms_event_2027_01") ∧
      CompleteRuns .none 7 (sampleTenant "comms_event_2027_01") [startOf 24323] d ∧
      ¬ ∃ r ∈ d, r.parent = some .commsEvent ∧ r.bounds.contains (startOf 24324) = true := by
  obtain ⟨d, hd, hP⟩ := exists_completes 24323 (some 7) (sampleTenant "comms_event_2027_01")
    (fun d => d.rows.all fun r =>
      !(r.parent = some .commsEvent && r.bounds.contains (startOf 24324))) (by decide +kernel)
  have hmonth : monthStart (startOf 24323) = 24323 := by decide
  refine ⟨d, provisioned_sampleTenant (by decide) fun t m hm => ?_, ⟨d, hmonth.symm ▸ hd, rfl⟩, ?_⟩
  · rcases hm with rfl | rfl <;> cases t <;> decide
  · rintro ⟨r, hr, hparent, hin⟩
    have hnot := List.all_eq_true.1 hP r hr
    simp [hparent, hin] at hnot

end Messgr.Partition
