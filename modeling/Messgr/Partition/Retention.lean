import Messgr.Partition.Resume

/-!
# The retention of the partition lifecycle

The boundary before which partitions are dropped is computed with a multiplication that wraps around
and with dates that end (`retentionMonths`, `subtractMonths`). `RetentionKept`: no run panics, and a
partition that is detached or dropped ended by the boundary of the exact product. That holds for the
instants and retentions of `RetentionFits` and for no others (`retention_not_shortened_iff`).
-/

namespace Messgr.Partition

open List Option Table Bool

/-- The table of a name is a partition of `t`. -/
def Attached (c : Catalogue) (t : PartitionedTable) (name : String) : Prop :=
  ∃ r ∈ c, r.name = name ∧ r.parent = some t

/-- The month of a partition ended by the boundary: its `partition_end` is not after it. -/
def Ended (t : PartitionedTable) (name : String) (boundary : Int) : Prop :=
  ∃ month, parsePartitionMonth t name = some month ∧ month + 1 ≤ boundary

/-- What was attached is attached, or ended by the boundary. -/
def KeepsTo (boundary : Int) (db c : Catalogue) : Prop :=
  ∀ r ∈ db, ∀ t, r.parent = some t → Attached c t r.name ∨ Ended t r.name boundary

/-- No run as of the instant with this retention panics, and none detaches or drops a partition that
did not end by the first day of the month minus `12 * retention_years` months. -/
def RetentionKept (asOf : Time) (retentionYears : Int) : Prop :=
  ∀ (ix : NewIndexes) (db : Catalogue) (p : Action LifecycleReport) (c : Catalogue),
    Interrupted ix (monthStart asOf) (some retentionYears) db p c →
      (∀ e, p ≠ .fail e) ∧ KeepsTo (monthStart asOf - 12 * retentionYears) db c

/-- The end of the next month, the month 18 months before and the one before which partitions are
dropped are dates; the product does not wrap around, or the wrapped one leads before the year 0. -/
structure RetentionFits (asOf : Time) (retentionYears : Int) : Prop where
  next : inRange (monthStart asOf + 2) = true
  move : inRange (monthStart asOf - moveAfterMonths) = true
  drop : inRange (monthStart asOf - 12 * retentionYears % 4294967296) = true
  exact : 12 * retentionYears < 4294967296 ∨ monthStart asOf ≤ 12 * retentionYears % 4294967296

theorem RetentionFits.next_month {asOf : Time} {years : Int} (h : RetentionFits asOf years) :
    inRange (monthStart asOf + 1) = true := by
  have hnext := inRange_iff.1 h.next
  have hmove := inRange_iff.1 h.move
  unfold moveAfterMonths at hmove
  exact inRange_iff.2 (by omega)

theorem retentionMonths_eq (years : Int) :
    (retentionMonths years : Int) = 12 * years % 4294967296 := by
  unfold retentionMonths
  omega

/-! ## What a statement keeps -/

section
variable {ix : NewIndexes} {m b : Int}
variable {t u : PartitionedTable} {r r' : Relation} {db c c' s s' : Catalogue} {n k : String}
variable {q : Stmt} {p : PartitionInfo}

theorem Attached.mono (h : ∀ r ∈ c, r ∈ c') (ha : Attached c t n) : Attached c' t n :=
  ha.imp fun _ hr => ⟨h _ hr.1, hr.2⟩

theorem Attached.alter {f : Relation → Relation} {hf : ∀ r, (f r).name = r.name}
    (ha : Attached c t n) (hp : ∀ r, r.name = k → n = k → (f r).parent = r.parent) :
    Attached (c.alter k f hf) t n := by
  obtain ⟨r, hr, rfl, hpar⟩ := ha
  by_cases hk : r.name = k
  · exact ⟨f r, (mem_update hf).2 (.inr ⟨r, hr, decide_eq_true hk, rfl⟩), hf r,
      (hp r hk hk).trans hpar⟩
  · exact ⟨r, (mem_update hf).2 (.inl ⟨hr, decide_eq_false hk⟩), rfl, hpar⟩

variable (b) in
/-- What a statement may do in a catalogue: detach what ended, drop what is not attached. -/
def Allowed (s : Catalogue) : Stmt → Prop
  | .detachPartition t n => Ended t n b
  | .dropTable n => ∀ t, ¬ Attached s t n
  | _ => True

/-- What is attached after a statement that is allowed. -/
theorem attached_exec {a : q.Answer} (hq : Allowed b s q) (hx : exec ix q a s = some s')
    (ha : Attached s t n) : Attached s' t n ∨ Ended t n b := by
  cases q with
  | partitionExists | listPartitions | indexNames =>
    cases (ite_none_right_eq_some.1 hx).2
    exact .inl ha
  | createPartition u m =>
    obtain ⟨r, -, hmem⟩ := createPartition_some hx
    exact .inl (ha.mono fun r' hr => (hmem r').2 (.inl hr))
  | setTablespace | setIndexTablespace =>
    cases (ite_none_right_eq_some.1 hx).2
    exact .inl (ha.alter fun _ _ _ => rfl)
  | detachPartition u name =>
    obtain ⟨hfound, hx⟩ := ite_none_right_eq_some.1 hx
    cases hx
    by_cases hn : n = name
    · -- the table of the name is attached to one parent
      obtain ⟨r, hr, hu⟩ := (any_eq_true _ _).1 hfound
      obtain ⟨hr, hname⟩ := Table.find?_some hr
      obtain ⟨r', hr', hname', ht⟩ := ha
      obtain rfl := eq_of_key hr' hr (hname'.trans (hn.trans hname.symm))
      cases ht.symm.trans (of_decide_eq_true hu)
      exact .inr (hn ▸ hq)
    · exact .inl (ha.alter fun _ _ hk => absurd hk hn)
  | dropTable name =>
    cases (ite_none_right_eq_some.1 hx).2
    obtain ⟨r, hr, hn, ht⟩ := ha
    refine .inl ⟨r, mem_delete.2 ⟨hr, decide_eq_false fun hname => ?_⟩, hn, ht⟩
    exact hq t ⟨r, hr, hname, ht⟩

theorem KeepsTo.exec {a : q.Answer} (h : KeepsTo b db s) (hq : Allowed b s q)
    (hx : exec ix q a s = some s') : KeepsTo b db s' := by
  intro r hr t ht
  rcases h r hr t ht with ha | hended
  · exact attached_exec hq hx ha
  · exact .inr hended

/-! ## Along a run -/

variable (ix b db) in
/-- The program keeps to the boundary throughout, and does not fail. -/
abbrev Safe (p : Action α) (Q : α → Catalogue → Prop) (s : Catalogue) : Prop :=
  Prog.Always (exec ix) (fun _ s => KeepsTo b db s) False (fun a s => Q a s ∧ KeepsTo b db s) p s

theorem safe_ask (h : KeepsTo b db s) (hq : Allowed b s q) :
    Safe ix b db (ask q) (fun a s' => exec ix q a s = some s') s :=
  Prog.Always.stmt h fun _ _ hx => ⟨hx, h.exec hq hx⟩

theorem safe_expect {o : Option Int} {d : Int} (h : KeepsTo b db s) (ho : o = some d) :
    Safe ix b db (expect o) (fun a _ => a = d) s := by
  subst ho
  exact ⟨rfl, h⟩

/-- A loop whose body keeps to the boundary. -/
theorem safe_collect {γ β : Type} {f : γ → Action (Option β)} {cs : List γ} (h : KeepsTo b db s)
    (hf : ∀ c ∈ cs, ∀ s, KeepsTo b db s → Safe ix b db (f c) (fun _ _ => True) s) :
    Safe ix b db (Prog.collect f cs) (fun _ _ => True) s := by
  refine (Prog.Always.collect (L := fun rest s => (∀ c ∈ rest, c ∈ cs) ∧ KeepsTo b db s)
    (fun c rest s hL => ?_) ⟨fun _ hc => hc, h⟩).mono (fun _ _ h => h) fun _ _ h => ⟨trivial, h.2⟩
  refine (hf c (hL.1 c mem_cons_self) s hL.2).mono (fun _ _ h => h) fun _ _ h => ?_
  exact ⟨fun c hc => hL.1 c (.tail _ hc), h.2⟩

theorem safe_createAhead {next : Int} (h : KeepsTo b db s) (hm : addMonths m 1 = some next) :
    Safe ix b db (createAhead t m) (fun _ _ => True) s := by
  refine .bind (safe_ask h trivial) fun found s1 h1 => ?_
  split
  · exact ⟨trivial, h1.2⟩
  · refine .bind ?_ fun _ _ h2 => h2
    refine .bind (safe_expect h1.2 hm) fun _ s2 h2 => ?_
    exact (safe_ask (q := .createPartition t m) h2.2 trivial).mono (fun _ _ h => h)
      fun _ _ h3 => ⟨trivial, h3.2⟩

theorem parsed_of_mem_filterMap {rows : List (String × Option String)}
    (h : p ∈ rows.filterMap (partitionInfo t)) :
    parsePartitionMonth t p.name = some p.monthStart := by
  obtain ⟨row, -, hrow⟩ := mem_filterMap.1 h
  obtain ⟨month, hmonth, rfl⟩ := map_eq_some_iff.1 hrow
  exact hmonth

theorem safe_listPartitions (h : KeepsTo b db s) :
    Safe ix b db (listPartitions t)
      (fun ps _ => ∀ p ∈ ps, parsePartitionMonth t p.name = some p.monthStart) s :=
  Prog.Always.bind (safe_ask h trivial) fun _ _ h1 => ⟨fun _ => parsed_of_mem_filterMap, h1.2⟩

theorem safe_moveOld {boundary : Int} (h : KeepsTo b db s)
    (hp : parsePartitionMonth t p.name = some p.monthStart) :
    Safe ix b db (moveOld boundary p) (fun _ _ => True) s := by
  refine (safe_expect h (addMonths_parsed hp)).bind fun e s1 h1 => ?_
  split
  · refine .bind ?_ fun _ _ h2 => h2
    refine .bind (safe_ask h1.2 trivial) fun _ s2 h2 => ?_
    refine .bind (safe_ask h2.2 trivial) fun names s3 h3 => ?_
    refine (safe_collect h3.2 fun index _ s4 h4 => ?_).bind fun _ _ h5 => h5
    exact .bind (safe_ask h4 trivial) fun _ _ h5 => ⟨trivial, h5.2⟩
  · exact ⟨trivial, h1.2⟩

/-- A partition is dropped if its month ended by the boundary. -/
theorem safe_dropOld (h : KeepsTo b db s) (hp : parsePartitionMonth t p.name = some p.monthStart) :
    Safe ix b db (dropOld t b p) (fun _ _ => True) s := by
  refine (safe_expect h (addMonths_parsed hp)).bind fun e s1 h1 => ?_
  obtain ⟨rfl, h1⟩ := h1
  split
  · next hle =>
    refine .bind ?_ fun _ _ h2 => h2
    refine .bind (safe_ask h1 ⟨_, hp, hle⟩) fun _ s2 h2 => ?_
    obtain ⟨hx, h2⟩ := h2
    obtain ⟨hfound, hx⟩ := ite_none_right_eq_some.1 hx
    cases hx
    obtain ⟨r, hr, -⟩ := (any_eq_true _ _).1 hfound
    obtain ⟨hr, hname⟩ := Table.find?_some hr
    refine (safe_ask h2 ?_).mono (fun _ _ h => h) fun _ _ h => ⟨trivial, h.2⟩
    rintro u ⟨r', hr', hname', hu⟩
    rw [mem_alter hr hname hr' hname'] at hu
    cases hu
  · exact ⟨trivial, h1⟩

/-- The month after one that is looked at is a date. -/
theorem addMonths_ahead {next k : Int} (hm : addMonths m 1 = some next)
    (hnext : inRange (m + 2) = true) (hk : k ∈ [m, m + 1]) : addMonths k 1 = some (k + 1) := by
  refine if_pos ?_
  have hnow := (ite_none_right_eq_some.1 hm).1
  rcases mem_cons.1 hk with rfl | hk
  · exact hnow
  · rw [mem_singleton.1 hk]
    show inRange (m + 1 + 1) = true
    rwa [Int.add_assoc]

/-- A run for a table keeps to the boundary. -/
theorem safe_runTable {years boundary next : Int} (h : KeepsTo b db s)
    (hm : addMonths m 1 = some next) (hnext : inRange (m + 2) = true)
    (hb : subtractMonths m (retentionMonths years) = some b) :
    Safe ix b db (runTable m (m + 1) boundary (some years) t) (fun _ _ => True) s := by
  refine (safe_collect h fun k hk _ h => safe_createAhead h (addMonths_ahead hm hnext hk)).bind
    fun created s1 h1 => ?_
  refine (safe_listPartitions h1.2).bind fun ps s2 h2 => ?_
  obtain ⟨hps, h2⟩ := h2
  refine (safe_collect h2 fun p hp _ h => safe_moveOld h (hps p hp)).bind fun moved s3 h3 => ?_
  refine (safe_expect h3.2 hb).bind fun d s4 h4 => ?_
  obtain ⟨rfl, h4⟩ := h4
  exact (safe_collect h4 fun p hp _ h => safe_dropOld h (hps p hp)).bind
    fun _ _ h5 => ⟨trivial, h5.2⟩

/-- A run with dates in range does not fail, and keeps to the boundary it computes. -/
theorem safe_run {years move : Int} (hm : addMonths m 1 = some (m + 1))
    (hnext : inRange (m + 2) = true) (hmove : subtractMonths m moveAfterMonths = some move)
    (hb : subtractMonths m (retentionMonths years) = some b) :
    Safe ix b db (run m (some years)) (fun _ _ => True) db := by
  have h : KeepsTo b db db := fun r hr t ht => .inl ⟨r, hr, rfl, ht⟩
  refine (safe_expect h hm).bind fun _ s1 h1 => ?_
  obtain ⟨rfl, h1⟩ := h1
  refine (safe_expect h1 hmove).bind fun _ s2 h2 => ?_
  exact (safe_collect h2.2 fun t _ _ h => safe_runTable h hm hnext hb).bind
    fun _ _ h3 => ⟨trivial, h3.2⟩

/-- Dates in range keep the retention. -/
theorem RetentionFits.kept {asOf : Time} {years : Int} (h0 : 0 ≤ years)
    (h : RetentionFits asOf years) : RetentionKept asOf years := by
  intro ix db p c hsteps
  have hm : addMonths (monthStart asOf) 1 = some (monthStart asOf + 1) := if_pos h.next_month
  have hmove : subtractMonths (monthStart asOf) moveAfterMonths =
    some (monthStart asOf - moveAfterMonths) := if_pos h.move
  have hdrop : subtractMonths (monthStart asOf) (retentionMonths years) =
      some (monthStart asOf - 12 * years % 4294967296) := by
    rw [subtractMonths, retentionMonths_eq, if_pos h.drop]
  have hat := Prog.Always.steps (safe_run hm h.next hmove hdrop) hsteps
  -- a partition has a month of the year 0 or later
  have hexact : ∀ t n, Ended t n (monthStart asOf - 12 * years % 4294967296) →
      Ended t n (monthStart asOf - 12 * years) := by
    rintro t n ⟨month, hparse, hle⟩
    have hmonth := (range_of_parsed hparse).1
    rcases h.exact with hlt | hle'
    · rw [Int.emod_eq_of_lt (by omega) hlt] at hle
      exact ⟨month, hparse, hle⟩
    · omega
  have hkeeps : KeepsTo (monthStart asOf - 12 * years % 4294967296) db c := by
    cases p with
    | ret a => exact hat.2
    | fail e => exact hat.elim
    | call q k => exact hat.1
  constructor
  · rintro e rfl
    exact hat
  · exact fun r hr t ht => (hkeeps r hr t ht).imp_right (hexact t r.name)

/-! ## Runs that panic or drop too much -/

variable (m) in
/-- The tables of the two months are there. -/
def Ahead (t : PartitionedTable) (c : Catalogue) : Prop :=
  ∀ m', m' = m ∨ m' = m + 1 → Exists c (partitionName t m')

theorem Ahead.named (h : Ahead m t c) : Named m t c := fun m' hm' => (h m' hm').taken

theorem ahead_ofList {rest : List Relation} : Ahead m t (Table.ofList (twoMonths m ++ rest)) := by
  intro m' hm'
  refine exists_key_foldl_upsert (.inr ⟨monthly t m', mem_append_left _ ?_, rfl⟩)
  cases t with
  | commsRequest | commsEvent => rcases hm' with rfl | rfl <;> simp [twoMonths]

theorem isSome_finish_of_ahead {years : Option Int} (hp : panics m years = false)
    (hrequest : Ahead m .commsRequest c) (hevent : Ahead m .commsEvent c) :
    (finish ix m years c).isSome = true := by
  have hsettled : Ahead m .commsEvent (settle m years .commsRequest c) :=
    fun m' hm' => exists_settle hm' (hevent m' hm')
  rw [finish, hp, finishTable_of_named hrequest.named]
  exact congrArg Option.isSome (finishTable_of_named hsettled.named)

/-- A run whose first two dates are in range, up to the tables. -/
theorem run_eq {years : Option Int} (hnext : inRange (m + 1) = true)
    (hmove : inRange (m - moveAfterMonths) = true) :
    run m years = (do
      let reports ← Prog.collect (runTable m (m + 1) (m - moveAfterMonths) years) partitionedTables
      pure (reports.foldl .append {})) := by
  rw [run, show addMonths m 1 = some (m + 1) from if_pos hnext,
    show subtractMonths m moveAfterMonths = some (m - moveAfterMonths) from if_pos hmove]
  rfl

variable (ix) in
/-- Where the boundary is no date, a run comes to the panic. -/
theorem exists_panic {years : Int} (hnext : inRange (m + 1) = true)
    (hmove : inRange (m - moveAfterMonths) = true)
    (hdrop : subtractMonths m (retentionMonths years) = none) :
    ∃ db c, Interrupted ix m (some years) db (.fail .dateOutOfRange) c := by
  let db : Catalogue := .ofList (twoMonths m ++ [])
  have hahead : Ahead m .commsRequest db := ahead_ofList
  have halways : Prog.Always _ (Point ix m (some years) .commsRequest db) True _ _ db :=
    always_runTable (fun _ => trivial) fun _ => trivial
  rcases halways.ends fun q s h => h.possible (by rw [finishTable_of_named hahead.named]; rfl) with
    ⟨-, -, -, -, -, hsome⟩ | ⟨e, c, hsteps, -⟩
  · rw [dropBoundary, bind_some, hdrop] at hsome
    cases hsome
  · cases e
    refine ⟨db, c, ?_⟩
    rw [Interrupted, run_eq hnext hmove]
    exact .bind_fail (.bind_fail hsteps)

variable (ix) in
/-- Where the wrapped product leads to a month after January of the year 0, a run drops its
partition. -/
theorem exists_drop {years : Int} (hnext : inRange (m + 1) = true)
    (hmove : inRange (m - moveAfterMonths) = true)
    (hdrop : subtractMonths m (retentionMonths years) = some b) (hb : 1 ≤ b) :
    ∃ db p c, Interrupted ix m (some years) db p c ∧ monthly .commsRequest 0 ∈ db ∧
      ¬ Attached c .commsRequest (monthly .commsRequest 0).name := by
  have hpanics : panics m (some years) = false := by
    simp [panics, addMonths, hnext, show subtractMonths m moveAfterMonths =
      some (m - moveAfterMonths) from if_pos hmove, hdrop]
  let db : Catalogue := .ofList (twoMonths m ++ [monthly .commsRequest 0])
  have hsome : (finish ix m (some years) db).isSome = true :=
    isSome_finish_of_ahead hpanics ahead_ofList ahead_ofList
  obtain ⟨report, c, hsteps, hended⟩ := always_run.returns
    (isSome_iff_ne_none.1 hsome) fun q s h => h.possible hsome
  refine ⟨db, _, c, hsteps, ?_, ?_⟩
  · show _ ∈ (twoMonths m ++ _).foldl _ _
    rw [foldl_append]
    exact mem_upsert.2 (.inl rfl)
  · rintro ⟨r, hr, hname, hparent⟩
    have hparse : parsePartitionMonth .commsRequest r.name = some 0 := by
      rw [hname]
      exact parse_partitionName_of_year (by decide) (by decide)
    have hdue : dropDue m (some years) .commsRequest r = true := by
      rw [dropDue, dropBoundary, bind_some, hdrop, any_some, endedBy_iff hparent hparse]
      exact hb
    rw [(hended.settled _ r hr).1] at hdue
    cases hdue

variable (ix) in
/-- Where the month after the next is no date, a run that creates the next panics. -/
theorem exists_panic_next (hnext : inRange (m + 1) = true) (hout : inRange (m + 2) = false)
    (hmove : inRange (m - moveAfterMonths) = true) {years : Option Int} :
    ∃ db, Interrupted ix m years db (.fail .dateOutOfRange) db := by
  let db : Catalogue := .ofList [monthly .commsRequest m]
  have hex : Exists db (partitionName .commsRequest m) := ⟨_, mem_upsert.2 (.inl rfl), rfl⟩
  have hfree : db.taken (partitionName .commsRequest (m + 1)) = false := by
    refine eq_false_iff.2 fun htaken => ?_
    obtain ⟨r, hr, hmem⟩ := taken_iff.1 htaken
    obtain rfl := mem_singleton.1 (mem_of_mem_ofList hr)
    have heq : partitionName .commsRequest (m + 1) = partitionName .commsRequest m :=
      mem_singleton.1 hmem
    have := partitionName_injective heq
    omega
  have hnone : addMonths (m + 1) 1 = none := by
    refine if_neg ?_
    show ¬ inRange (m + 1 + 1) = true
    rw [Int.add_assoc]
    exact eq_false_iff.1 hout
  refine ⟨db, ?_⟩
  rw [Interrupted, run_eq hnext hmove]
  have hfound : exec ix (.partitionExists (partitionName .commsRequest m)) true db = some db :=
    if_pos hex.taken.symm
  have hmissing : exec ix (.partitionExists (partitionName .commsRequest (m + 1))) false db =
      some db := if_pos hfree.symm
  have hcreate : Prog.Steps (exec ix) (createAhead .commsRequest (m + 1)) db
      (.fail .dateOutOfRange) db := by
    refine .call hmissing (.bind_fail (p := createPartition _ _) ?_)
    rw [createPartition, hnone]
    exact .refl
  refine .bind_fail (.bind_fail (.bind_fail ?_))
  exact .call hfound (.bind_fail (p := .collect _ [m + 1]) (.bind_fail hcreate))

/-- A date out of range loses it, by a drop or a panic. -/
theorem RetentionKept.fits {asOf : Time} {years : Int} (h : RetentionKept asOf years) :
    RetentionFits asOf years := by
  have hmonth : inRange (monthStart asOf + 1) = true := by
    by_contra hout
    refine (h .none ∅ _ ∅ .refl).1 .dateOutOfRange ?_
    rw [run, show addMonths (monthStart asOf) 1 = none from if_neg hout]
    rfl
  have hmove : inRange (monthStart asOf - moveAfterMonths) = true := by
    by_contra hout
    refine (h .none ∅ _ ∅ .refl).1 .dateOutOfRange ?_
    rw [run, show addMonths (monthStart asOf) 1 = some (monthStart asOf + 1) from if_pos hmonth,
      show subtractMonths (monthStart asOf) moveAfterMonths = none from if_neg hout]
    rfl
  have hnext : inRange (monthStart asOf + 2) = true := by
    by_contra hout
    obtain ⟨db, hsteps⟩ := exists_panic_next .none hmonth (eq_false_iff.2 hout) hmove
    exact (h _ db _ db hsteps).1 _ rfl
  have hdrop : inRange (monthStart asOf - 12 * years % 4294967296) = true := by
    by_contra hout
    have hnone : subtractMonths (monthStart asOf) (retentionMonths years) = none := by
      rw [subtractMonths, retentionMonths_eq, if_neg hout]
    obtain ⟨db, c, hsteps⟩ := exists_panic .none hmonth hmove hnone
    exact (h _ db _ c hsteps).1 _ rfl
  refine ⟨hnext, hmove, hdrop, ?_⟩
  by_contra hwrap
  obtain ⟨hwrap, hlater⟩ := not_or.1 hwrap
  have hsome : subtractMonths (monthStart asOf) (retentionMonths years) =
      some (monthStart asOf - 12 * years % 4294967296) := by
    rw [subtractMonths, retentionMonths_eq, if_pos hdrop]
  obtain ⟨db, p, c, hsteps, hmem, hgone⟩ :=
    exists_drop .none hmonth hmove hsome (by omega)
  rcases (h _ db p c hsteps).2 _ hmem .commsRequest rfl with hatt | ⟨month, hparse, hle⟩
  · exact hgone hatt
  · -- the month of the partition is 0, far from the exact boundary
    obtain rfl := parse_partitionName hparse
    rw [inRange_iff] at hmonth
    omega

end

/-- A retention is kept exactly when its dates are in range and the wrapped product drops nothing:
otherwise a run panics, or drops partitions that the retention keeps. -/
theorem retention_not_shortened_iff (asOf : Time) (retentionYears : Int)
    (h : 0 ≤ retentionYears) : RetentionKept asOf retentionYears ↔
      RetentionFits asOf retentionYears :=
  ⟨RetentionKept.fits, RetentionFits.kept h⟩

/-- 15 November 2026. -/
def sampleInstant : Time := startOf sampleMonth + 14 * day

/-- Seven years. -/
theorem retention_not_shortened_seven : 0 ≤ (7 : Int) ∧ RetentionKept sampleInstant 7 :=
  ⟨by decide, (retention_not_shortened_iff sampleInstant 7 (by decide)).2
    ⟨by decide, by decide, by decide, by decide⟩⟩

/-- With 357913942 years the product wraps around to 8 months, and the partition of January 2026 is
dropped in November; with 300000 years the run panics. -/
theorem retention_shortened :
    (∃ db report c, Interrupted .none (monthStart sampleInstant) (some 357913942) db
      (.ret report) c ∧ Attached db .commsRequest "comms_request_2026_01" ∧
      report.dropped = ["comms_request_2026_01"] ∧
      ¬ Ended .commsRequest "comms_request_2026_01" (monthStart sampleInstant - 12 * 357913942)) ∧
    ∃ db c, Interrupted .none (monthStart sampleInstant) (some 300000) db
      (.fail .dateOutOfRange) c := by
  constructor
  · have hrun : ((runFor (monthStart sampleInstant) (some 357913942) 40
        (Table.ofList [monthly .commsRequest 24312])).any fun stop =>
        stop.1.value.any fun report => report.dropped = ["comms_request_2026_01"]) = true := by
      decide +kernel
    obtain ⟨⟨p, c⟩, hstop, hrun⟩ := (Option.any_eq_true _ _).1 hrun
    obtain ⟨report, hvalue, hdropped⟩ := (Option.any_eq_true _ _).1 hrun
    obtain rfl := Prog.value_some hvalue
    refine ⟨_, report, c, Prog.walk_steps hstop,
      ⟨monthly .commsRequest 24312, .head _, by decide, rfl⟩, of_decide_eq_true hdropped, ?_⟩
    rintro ⟨month, hparse, hle⟩
    have hmonth := (range_of_parsed hparse).1
    have hnow : monthStart sampleInstant = 24322 := by decide
    omega
  · exact exists_panic _ (by decide) (by decide) (by decide)

end Messgr.Partition
