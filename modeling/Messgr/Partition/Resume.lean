import Messgr.Partition.Finish

/-!
# Resuming the partition lifecycle

A run that was interrupted after any of its statements, and a complete run after it. At every point
of the run (`always_run`) what is left to be done is as it was at the start exactly if it may stop
there (`Resumable`), and exactly then the next run ends where the first one would have ended
(`resumed_as_uninterrupted`). Between `DETACH` and `DROP`, and between the move of a table and that
of its indexes, it no longer sees what is left (`lifecycle_not_resumed`); and a name of a month that
is lost with the index of a dropped partition is one that it finds free.
-/

namespace Messgr.Partition

open List Option Table

section
variable (ix : NewIndexes) (currentMonth : Int) (retentionYears : Option Int)

/-! ## Interrupted and complete runs -/

/-- A run that stopped in the catalogue `c`, with `p` left. -/
def Interrupted (db : Catalogue) (p : Action LifecycleReport) (c : Catalogue) : Prop :=
  Prog.Steps (exec ix) (run currentMonth retentionYears) db p c

/-- A run that returned. -/
def Completes (db d : Catalogue) : Prop :=
  ∃ report, Interrupted ix currentMonth retentionYears db (.ret report) d

/-- The statements before which a run may stop: not between `DETACH` and `DROP`, and not while a
partition that the retention keeps has its table moved and an index not moved. -/
def resumable (c : Catalogue) : Option Stmt → Bool
  | some (.dropTable _) => false
  | some (.indexNames name) | some (.setIndexTablespace name _) =>
    (c.find? name).any fun r =>
      partitionedTables.any (dropDue currentMonth retentionYears · r) ||
        r.indexes.all fun i => i.tablespace = some coldTablespace
  | _ => true

/-- Where a run that started in `db` may stop: before such a statement, and while every name of a
month under which it found something is taken. -/
structure Resumable (db c : Catalogue) (q : Option Stmt) : Prop where
  stmt : resumable currentMonth retentionYears c q = true
  names : ∀ t m, m = currentMonth ∨ m = currentMonth + 1 →
    Found currentMonth retentionYears db t m → c.taken (partitionName t m) = true

end

section
variable {ix : NewIndexes} {now : Int} {years : Option Int}
variable {t u : PartitionedTable} {r r' : Relation} {db c c' d s s0 s' : Catalogue} {n : String}
variable {p : PartitionInfo} {ps : List PartitionInfo} {rest : List PartitionInfo}

/-! ## The program -/

variable (ix now years) in
/-- Something that no run changes any more, and that a complete run from `s0` on does not leave so:
a table that it drops, or one that is cold with an index that is not. -/
def Stuck (t : PartitionedTable) (s0 s : Catalogue) : Prop :=
  ∃ r ∈ s, (∀ u, dropDue now years u r = false ∧ moveDue now u r = false) ∧
    (∀ u m, m = now ∨ m = now + 1 → r.name ≠ partitionName u m) ∧
    ∃ c, finishTable ix now years t s0 = some c ∧
      ∀ r' ∈ c, r'.name = r.name → r'.cool = r' ∧ r.cool ≠ r

variable (ix now years) in
/-- A statement of the run for the table `t` that started in `s0`. It can be made if all that is
left to be done can be done. -/
structure Point (t : PartitionedTable) (s0 : Catalogue) (q : Stmt) (s : Catalogue) : Prop where
  kept : resumable now years s (some q) = true → Kept ix now years t s0 s
  stuck : resumable now years s (some q) = false → Stuck ix now years t s0 s
  possible : (finishTable ix now years t s0).isSome = true → ∃ r s', exec ix q r s = some s'

variable (ix now years t s0) in
/-- The program makes such statements only. -/
abbrev Goes {α : Type} (E : Prop) (p : Action α) (Q : α → Catalogue → Prop) (s : Catalogue) :
    Prop :=
  Prog.Always (exec ix) (Point ix now years t s0) E Q p s

theorem Kept.point {q : Stmt} (h : Kept ix now years t s0 s)
    (hq : resumable now years s (some q) = true)
    (hp : (finishTable ix now years t s0).isSome = true → ∃ r s', exec ix q r s = some s') :
    Point ix now years t s0 q s :=
  ⟨fun _ => h, fun hnot => absurd (hq.symm.trans hnot) nofun, hp⟩

variable {E : Prop} {m : Int}

/-- A date that is there. -/
theorem always_expect {I : Stmt → Catalogue → Prop} {o : Option Int} (h : o = none → E) :
    Prog.Always (exec ix) I E (fun date s' => o = some date ∧ s' = s) (expect o) s := by
  cases o with
  | none => exact h rfl
  | some date => exact ⟨rfl, rfl⟩

/-- The months of a table are created as they are due. -/
theorem always_createAhead (hE : finishTable ix now years t s0 = none → E)
    (hk : Ensured ix now years t s0 s) (hm : IsNext now t m s) :
    Goes ix now years t s0 E (createAhead t m)
      (fun _ s' => Ensured ix now years t s0 s' ∧ ensure ix t m s = some s') s := by
  refine .bind (P := fun found s' => found = s.taken (partitionName t m) ∧ s' = s)
    (.stmt (hk.kept.point rfl fun _ => ⟨_, s, if_pos rfl⟩) fun found s' hx => ?_)
    fun found s' h => ?_
  · obtain ⟨hfound, hx⟩ := ite_none_right_eq_some.1 hx
    exact ⟨hfound, (Option.some.inj hx).symm⟩
  obtain ⟨rfl, rfl⟩ := h
  cases hfound : s'.taken (partitionName t m) with
  | true =>
    have hensure : ensure ix t m s' = some s' := ensure_of_taken hfound
    exact ⟨hk.next hm hensure, hensure⟩
  | false =>
    have hensure : ensure ix t m s' =
        (addMonths m 1).bind fun _ => s'.createPartition ix t m := by
      rw [ensure, hfound]
      rfl
    have hleft : finishTable ix now years t s0 =
        (ensure ix t m s').bind (finishTable ix now years t) :=
      hk.same.symm.trans (finishTable_isNext hm)
    refine .bind (P := fun _ s1 => ensure ix t m s' = some s1)
      (.bind (always_expect fun hnone => hE ?_) fun date s1 h1 => ?_)
      fun _ s1 h1 => ⟨hk.next hm h1, h1⟩
    · rw [hleft, hensure, hnone]
      rfl
    · obtain ⟨hdate, rfl⟩ := h1
      rw [hdate, bind_some] at hensure
      refine .stmt (hk.kept.point rfl fun hsome => ?_) fun _ s2 hx => hensure.trans hx
      rw [hleft] at hsome
      obtain ⟨_, hsome⟩ := isSome_iff_exists.1 hsome
      obtain ⟨s2, hx, -⟩ := bind_eq_some_iff.1 hsome
      exact ⟨(), s2, hensure.symm.trans hx⟩

/-- What the loops over the listed partitions have left acts on those that are due. -/
structure Todo (t : PartitionedTable) (acts : PartitionInfo → Prop) (due : Relation → Bool)
    (rest : List PartitionInfo) (s : Catalogue) : Prop where
  nodup : (rest.map PartitionInfo.name).Nodup
  parsed : ∀ p ∈ rest, parsePartitionMonth t p.name = some p.monthStart
  iff : ∀ n, (∃ p ∈ rest, acts p ∧ p.name = n) ↔ ∃ r ∈ s, due r = true ∧ r.name = n

section
variable {acts : PartitionInfo → Prop} {due : Relation → Bool} {p : PartitionInfo}
variable {rest : List PartitionInfo}

section
variable (h : Todo t acts due (p :: rest) s)
include h

theorem Todo.head (hp : acts p) : ∀ r ∈ s, r.name = p.name → due r = true := by
  intro r hr hn
  obtain ⟨r', hr', hdue, hn'⟩ := (h.iff p.name).1 ⟨p, mem_cons_self, hp, rfl⟩
  rwa [eq_of_key hr hr' (hn.trans hn'.symm)]

theorem Todo.exists_head (hp : acts p) : Exists s p.name := by
  obtain ⟨r, hr, -, hn⟩ := (h.iff p.name).1 ⟨p, mem_cons_self, hp, rfl⟩
  exact ⟨r, hr, hn⟩

theorem Todo.skip (hp : ¬ acts p) : Todo t acts due rest s := by
  refine ⟨(nodup_cons.1 h.nodup).2, fun q hq => h.parsed q (.tail _ hq), fun n => ?_⟩
  rw [← h.iff n]
  constructor
  · rintro ⟨q, hq, hacts⟩
    exact ⟨q, .tail _ hq, hacts⟩
  · rintro ⟨q, hq, hacts, hn⟩
    cases hq with
    | head => exact absurd hacts hp
    | tail _ hq => exact ⟨q, hq, hacts, hn⟩

/-- The first partition is no longer due, and the others are as they were. -/
theorem Todo.next (hs : ∀ n, (∃ r ∈ s', due r = true ∧ r.name = n) ↔
      (∃ r ∈ s, due r = true ∧ r.name = n) ∧ n ≠ p.name) : Todo t acts due rest s' := by
  obtain ⟨hnot, hnodup⟩ := nodup_cons.1 h.nodup
  refine ⟨hnodup, fun q hq => h.parsed q (.tail _ hq), fun n => ?_⟩
  rw [hs n, ← h.iff n]
  constructor
  · rintro ⟨q, hq, hacts, rfl⟩
    exact ⟨⟨q, .tail _ hq, hacts, rfl⟩, fun hn => hnot (hn ▸ mem_map_of_mem hq)⟩
  · rintro ⟨⟨q, hq, hacts, rfl⟩, hne⟩
    cases hq with
    | head => exact absurd rfl hne
    | tail _ hq => exact ⟨q, hq, hacts, rfl⟩

end

/-- What is due is as it was. -/
theorem Todo.same (h : Todo t acts due rest s)
    (hs : ∀ n, (∃ r ∈ s', due r = true ∧ r.name = n) ↔ ∃ r ∈ s, due r = true ∧ r.name = n) :
    Todo t acts due rest s' :=
  ⟨h.nodup, h.parsed, fun n => (h.iff n).trans (hs n).symm⟩

theorem Todo.nil (h : Todo t acts due [] s) : ∀ r ∈ s, due r = false := by
  intro r hr
  refine Bool.eq_false_iff.2 fun hdue => ?_
  obtain ⟨p, hp, -⟩ := (h.iff r.name).2 ⟨r, hr, hdue, rfl⟩
  cases hp

end

/-- What `move_to_tablespace` acts on. -/
def Moves (currentMonth : Int) (p : PartitionInfo) : Prop :=
  p.monthStart + 1 ≤ currentMonth - moveAfterMonths ∧ p.tablespace ≠ some coldTablespace

/-- What `detach_and_drop` acts on. -/
def Drops (currentMonth : Int) (retentionYears : Option Int) (p : PartitionInfo) : Prop :=
  ∃ b, dropBoundary currentMonth retentionYears = some b ∧ p.monthStart + 1 ≤ b

/-- The listed partitions are the attached ones of a month. -/
theorem mem_filterMap_attached :
    p ∈ (s.attached t).filterMap (partitionInfo t) ↔ ∃ r ∈ s, r.parent = some t ∧
      parsePartitionMonth t r.name = some p.monthStart ∧ p.name = r.name ∧
      p.tablespace = r.tablespace := by
  rw [mem_filterMap]
  constructor
  · rintro ⟨row, hrow, hp⟩
    obtain ⟨r, hr, rfl⟩ := mem_map.1 hrow
    obtain ⟨hr, hparent⟩ := mem_filter.1 hr
    obtain ⟨m, hm, rfl⟩ := map_eq_some_iff.1 hp
    exact ⟨r, hr, of_decide_eq_true hparent, hm, rfl, rfl⟩
  · rintro ⟨r, hr, hparent, hm, hn, ht⟩
    refine ⟨(r.name, r.tablespace), mem_map_of_mem (mem_filter.2 ⟨hr, decide_eq_true hparent⟩), ?_⟩
    rw [partitionInfo, hm, map_some, ← hn, ← ht]

theorem nodup_filterMap_attached :
    (((s.attached t).filterMap (partitionInfo t)).map PartitionInfo.name).Nodup := by
  have hnames : ((s.attached t).map Prod.fst).Nodup := by
    rw [Catalogue.attached, List.map_map]
    exact s.nodup.sublist (filter_sublist.map _)
  have heq : ((s.attached t).filterMap (partitionInfo t)).map PartitionInfo.name =
      ((s.attached t).map Prod.fst).filterMap fun n =>
        (parsePartitionMonth t n).map fun _ => n := by
    rw [map_filterMap, filterMap_map]
    refine filterMap_congr fun row _ => ?_
    simp only [partitionInfo, Option.map_map, Function.comp_def]
  rw [heq]
  refine hnames.filterMap fun n n' b hb hb' => ?_
  obtain ⟨_, -, rfl⟩ := map_eq_some_iff.1 hb
  obtain ⟨_, -, rfl⟩ := map_eq_some_iff.1 hb'
  rfl

/-- What is listed are the partitions that the loops act on. -/
theorem todo_listed {acts : PartitionInfo → Prop} {due : Relation → Bool}
    (hps : ps.Perm ((s.attached t).filterMap (partitionInfo t)))
    (hparent : ∀ r, due r = true → r.parent = some t ∧ (parsePartitionMonth t r.name).isSome = true)
    (hacts : ∀ (p : PartitionInfo) (r : Relation), r.parent = some t →
      parsePartitionMonth t r.name = some p.monthStart → p.tablespace = r.tablespace →
      (acts p ↔ due r = true)) : Todo t acts due ps s := by
  refine ⟨(hps.map _).nodup_iff.2 nodup_filterMap_attached, fun p hp => ?_, fun n => ?_⟩
  · obtain ⟨r, -, -, hm, hn, -⟩ := mem_filterMap_attached.1 (hps.mem_iff.1 hp)
    rw [hn, hm]
  constructor
  · rintro ⟨p, hp, hact, rfl⟩
    obtain ⟨r, hr, hpar, hm, hn, ht⟩ := mem_filterMap_attached.1 (hps.mem_iff.1 hp)
    exact ⟨r, hr, (hacts p r hpar hm ht).1 hact, hn.symm⟩
  · rintro ⟨r, hr, hdue, rfl⟩
    obtain ⟨hpar, hsome⟩ := hparent r hdue
    obtain ⟨m, hm⟩ := isSome_iff_exists.1 hsome
    exact ⟨⟨r.name, m, r.tablespace⟩, hps.mem_iff.2
      (mem_filterMap_attached.2 ⟨r, hr, hpar, hm, rfl, rfl⟩), (hacts _ r hpar hm rfl).2 hdue, rfl⟩

theorem endedBy_iff {b : Int} (hp : r.parent = some t)
    (hm : parsePartitionMonth t r.name = some m) : r.endedBy t b = true ↔ m + 1 ≤ b := by
  simp [Relation.endedBy, hp, hm]

theorem todo_moves (hps : ps.Perm ((s.attached t).filterMap (partitionInfo t))) :
    Todo t (Moves now) (moveDue now t) ps s := by
  refine todo_listed hps (fun r hr => ?_) fun p r hpar hm ht => ?_
  · obtain ⟨hpar, -, m, hm, -⟩ := moveDue_true hr
    exact ⟨hpar, isSome_iff_exists.2 ⟨m, hm⟩⟩
  · rw [moveDue, Bool.and_eq_true, endedBy_iff hpar hm, decide_eq_true_eq, ← ht]
    rfl

theorem todo_drops (hps : ps.Perm ((s.attached t).filterMap (partitionInfo t))) :
    Todo t (Drops now years) (dropDue now years t) ps s := by
  refine todo_listed hps (fun r hr => ?_) fun p r hpar hm ht => ?_
  · obtain ⟨hpar, m, hm, -⟩ := dropDue_true hr
    exact ⟨hpar, isSome_iff_exists.2 ⟨m, hm⟩⟩
  · rw [dropDue, Option.any_eq_true]
    exact exists_congr fun b => and_congr_right fun _ => (endedBy_iff hpar hm).symm

theorem always_listPartitions (hk : Settling ix now years t s0 s) :
    Goes ix now years t s0 E (listPartitions t)
      (fun ps s' => s' = s ∧ ps.Perm ((s.attached t).filterMap (partitionInfo t))) s := by
  refine .bind (P := fun rows s' => s' = s ∧ rows.Perm (s.attached t))
    (.stmt (hk.kept.point rfl fun _ => ⟨_, s, if_pos (.refl _)⟩)
      fun rows s' hx => ?_) fun rows s' h => ⟨h.1, h.2.filterMap _⟩
  obtain ⟨hperm, hx⟩ := ite_none_right_eq_some.1 hx
  exact ⟨(Option.some.inj hx).symm, hperm⟩

/-! ## One partition -/

theorem cool_coolIndex (index : String) (r : Relation) : (r.coolIndex index).cool = r.cool := by
  simp only [Relation.cool, Relation.coolIndex, List.map_map, Relation.mk.injEq, true_and]
  refine map_congr_left fun i _ => ?_
  simp only [Function.comp]
  split
  · rfl
  · rfl

/-- The rows of the table of a name, after a change of it. -/
theorem mem_alter {f : Relation → Relation} {hf : ∀ r, (f r).name = r.name} (hr : r ∈ c)
    (hn : r.name = n) (hr' : r' ∈ c.alter n f hf) (hn' : r'.name = n) : r' = f r := by
  rcases (mem_update hf).1 hr' with ⟨-, hne⟩ | ⟨a, ha, hna, rfl⟩
  · exact absurd hn' (of_decide_eq_false hne)
  · rw [eq_of_key ha hr ((of_decide_eq_true hna).trans hn.symm)]

theorem indexNames_of_mem (hr : r ∈ c) : c.indexNames r.name = r.indexes.map Index.name := by
  rw [Catalogue.indexNames, find?_of_mem hr, map_some, getD_some]

/-- The named table is moved, and the indexes `rest` are left to be moved. -/
structure Moving (n : String) (c : Catalogue) (rest : List String) (c' : Catalogue) : Prop where
  cools : Cools n c c'
  table : ∀ r ∈ c', r.name = n → r.tablespace = some coldTablespace
  indexes : ∀ r ∈ c', r.name = n → ∀ i ∈ r.indexes, i.tablespace ≠ some coldTablespace →
    i.name ∈ rest
  names : ∀ j ∈ rest, j ∈ c'.indexNames n

/-- An index that is moved is no longer left to be moved. -/
theorem Moving.step {j : String} {rest : List String} (h : Moving n c (j :: rest) c')
    (hex : Exists c' n) :
    Moving n c rest (c'.alter n (.coolIndex j) (Relation.name_coolIndex j)) := by
  obtain ⟨r, hr, rfl⟩ := hex
  have hcools : Cools r.name c (c'.alter r.name (.coolIndex j) (Relation.name_coolIndex j)) :=
    h.cools.alter (cool_coolIndex j)
  have hrow : ∀ r' ∈ c'.alter r.name (.coolIndex j) (Relation.name_coolIndex j),
      r'.name = r.name → r' = r.coolIndex j := fun r' hr' hn => mem_alter hr rfl hr' hn
  refine ⟨hcools, fun r' hr' hn => ?_, fun r' hr' hn i hi hcold => ?_, fun k hk => ?_⟩
  · rw [hrow r' hr' hn]
    exact h.table r hr rfl
  · rw [hrow r' hr' hn] at hi
    obtain ⟨i0, hi0, rfl⟩ := mem_map.1 hi
    by_cases hne : i0.name = j
    · rw [if_pos hne] at hcold
      exact absurd rfl hcold
    · rw [if_neg hne] at hcold ⊢
      exact (mem_cons.1 (h.indexes r hr rfl i0 hi0 hcold)).resolve_left hne
  · have hmem : r.coolIndex j ∈ c'.alter r.name (.coolIndex j) (Relation.name_coolIndex j) :=
      (mem_update _).2 (.inr ⟨r, hr, decide_eq_true rfl, rfl⟩)
    have hnames := h.names k (.tail _ hk)
    rw [indexNames_of_mem hr] at hnames
    have hnames' := indexNames_of_mem hmem
    rw [Relation.name_coolIndex] at hnames'
    rw [hnames', Relation.coolIndex, List.map_map]
    obtain ⟨i, hi, rfl⟩ := mem_map.1 hnames
    refine mem_map.2 ⟨i, hi, ?_⟩
    simp only [Function.comp]
    split
    · rfl
    · rfl

section
variable (hk : Settling ix now years t s0 s) (hex : Exists s n)
variable (hdue : ∀ r ∈ s, r.name = n → moveDue now t r = true)
include hk hex hdue

/-- In the middle of a move. -/
theorem Cools.point {q : Stmt} (h : Cools n s s')
    (htable : ∀ r ∈ s', r.name = n → r.tablespace = some coldTablespace)
    (hq : resumable now years s' (some q) = resumable now years s' (some (.indexNames n)))
    (hp : ∃ r s'', exec ix q r s' = some s'') : Point ix now years t s0 q s' := by
  obtain ⟨r, hr, rfl⟩ := h.exists_iff.2 hex
  obtain ⟨r0, hr0, hcool, -⟩ := h.exists_before r hr
  have hdue0 := hdue r0 hr0 (name_of_cool hcool).symm
  rw [resumable, find?_of_mem hr, any_some] at hq
  refine ⟨fun hres => ?_, fun hres => ?_, fun _ => hp⟩
  · rw [hq, Bool.or_eq_true] at hres
    refine (hk.cools h hdue fun r' hr' hn => ?_).kept
    obtain rfl := eq_of_key hr' hr hn
    rcases hres with hdrop | hcold
    · obtain ⟨u, -, hdrop⟩ := any_eq_true.1 hdrop
      have hparent := (moveDue_true hdue0).1
      rw [← parent_of_cool hcool, (dropDue_true hdrop).1] at hparent
      cases hparent
      exact .inl hdrop
    · refine .inr (cool_eq_self (htable r' hr' rfl) fun i hi => ?_)
      exact of_decide_eq_true (all_eq_true.1 hcold i hi)
  · rw [hq, Bool.or_eq_false_iff] at hres
    obtain ⟨hdrop, hcold⟩ := hres
    refine ⟨r, hr, fun u => ⟨?_, ?_⟩, fun u m hm => ?_, _, hk.same, fun r' hr' hn => ?_⟩
    · exact Bool.eq_false_iff.2 (List.any_eq_false.1 hdrop u (by cases u <;> decide))
    · simp [moveDue, htable r hr rfl]
    · rw [name_of_cool hcool]
      exact name_ne_of_moveDue hdue0 hm
    · obtain ⟨r1, hr1, -, rfl⟩ := mem_settle.1 hr'
      rw [chill, if_pos (hdue r1 hr1 (name_chill.symm.trans hn))]
      refine ⟨cool_cool r1, fun hself => ?_⟩
      obtain ⟨i, hi, hnot⟩ := all_eq_false.1 hcold
      rw [← hself] at hi
      obtain ⟨i0, -, rfl⟩ := mem_map.1 hi
      exact hnot (decide_eq_true rfl)

/-- A move leaves what is due, and the table cold. -/
theorem always_moveToTablespace :
    Goes ix now years t s0 E (moveToTablespace n)
      (fun _ s' => Settling ix now years t s0 s' ∧ Cools n s s' ∧
        ∀ r ∈ s', r.name = n → r.tablespace = some coldTablespace) s := by
  -- the table
  refine .bind (P := fun _ s' => Cools n s s' ∧
      ∀ r ∈ s', r.name = n → r.tablespace = some coldTablespace)
    (.stmt (hk.kept.point rfl fun _ => ⟨(), _, if_pos (isSome_find?.2 hex)⟩)
      fun _ s' hx => ?_) fun _ s1 h1 => ?_
  · obtain ⟨-, hx⟩ := ite_none_right_eq_some.1 hx
    cases hx
    refine ⟨Cools.refl.alter fun _ => rfl, fun r' hr' hn => ?_⟩
    obtain ⟨r, hr, hn0⟩ := hex
    rw [mem_alter hr hn0 hr' hn]
    rfl
  obtain ⟨hcools, htable⟩ := h1
  -- the names of its indexes
  refine .bind (P := fun names s' => Moving n s names s')
    (.stmt (hcools.point hk hex hdue htable rfl ⟨_, s1, if_pos (.refl _)⟩) fun names s' hx => ?_)
    fun names s2 h2 => ?_
  · obtain ⟨hperm, hx⟩ := ite_none_right_eq_some.1 hx
    cases hx
    refine ⟨hcools, htable, fun r hr hn i hi _ => ?_, fun j hj => hperm.mem_iff.1 hj⟩
    rw [hperm.mem_iff, ← hn, indexNames_of_mem hr]
    exact mem_map_of_mem hi
  -- the indexes, one by one
  refine .bind (.collect (L := Moving n s) (fun j rest s3 h3 => ?_) h2) fun _ s4 h4 => ?_
  · refine .bind (P := fun _ s' => Moving n s rest s')
      (.stmt (h3.cools.point hk hex hdue h3.table rfl
        ⟨(), _, if_pos (h3.names j mem_cons_self)⟩) fun _ s' hx => ?_)
      fun _ _ h => h
    obtain ⟨-, hx⟩ := ite_none_right_eq_some.1 hx
    cases hx
    exact h3.step (h3.cools.exists_iff.2 hex)
  · refine ⟨hk.cools h4.cools hdue fun r hr hn => .inr ?_, h4.cools, h4.table⟩
    refine cool_eq_self (h4.table r hr hn) fun i hi => ?_
    by_contra hcold
    cases h4.indexes r hr hn i hi hcold

end

/-- A move changes nothing of what is to be dropped. -/
theorem Cools.dropDue_iff {k : String} (h : Cools n c c') :
    (∃ r ∈ c', dropDue now years t r = true ∧ r.name = k) ↔
      ∃ r ∈ c, dropDue now years t r = true ∧ r.name = k := by
  constructor
  · rintro ⟨r', hr', hdue, rfl⟩
    obtain ⟨r, hr, hcool, -⟩ := h.exists_before r' hr'
    rw [dropDue_congr (name_of_cool hcool) (parent_of_cool hcool)] at hdue
    exact ⟨r, hr, hdue, (name_of_cool hcool).symm⟩
  · rintro ⟨r, hr, hdue, rfl⟩
    obtain ⟨r', hr', hcool, -⟩ := h.exists_after r hr
    rw [← dropDue_congr (name_of_cool hcool) (parent_of_cool hcool)] at hdue
    exact ⟨r', hr', hdue, name_of_cool hcool⟩

/-- A partition that is moved is no longer due. -/
theorem Cools.moveDue_iff {k : String} (h : Cools n c c')
    (htable : ∀ r ∈ c', r.name = n → r.tablespace = some coldTablespace) :
    (∃ r ∈ c', moveDue now t r = true ∧ r.name = k) ↔
      (∃ r ∈ c, moveDue now t r = true ∧ r.name = k) ∧ k ≠ n := by
  constructor
  · rintro ⟨r', hr', hdue, rfl⟩
    have hn : r'.name ≠ n := fun hn => (moveDue_true hdue).2.1 (htable r' hr' hn)
    obtain ⟨r, hr, -, hsame⟩ := h.exists_before r' hr'
    rw [hsame hn] at hdue ⊢
    exact ⟨⟨r, hr, hdue, rfl⟩, hsame hn ▸ hn⟩
  · rintro ⟨⟨r, hr, hdue, rfl⟩, hn⟩
    obtain ⟨r', hr', -, hsame⟩ := h.exists_after r hr
    rw [hsame hn] at hr'
    exact ⟨r, hr', hdue, rfl⟩

/-- A turn of the loop that moves. -/
theorem always_moveOld {all : List PartitionInfo} (hk : Settling ix now years t s0 s)
    (hmoves : Todo t (Moves now) (moveDue now t) (p :: rest) s)
    (hdrops : Todo t (Drops now years) (dropDue now years t) all s) :
    Goes ix now years t s0 E (moveOld (now - moveAfterMonths) p)
      (fun _ s' => Settling ix now years t s0 s' ∧
        Todo t (Moves now) (moveDue now t) rest s' ∧
        Todo t (Drops now years) (dropDue now years t) all s') s := by
  have hend := addMonths_parsed (hmoves.parsed p mem_cons_self)
  refine .bind (always_expect (by rw [hend]; exact nofun)) fun e s' h => ?_
  obtain ⟨he, rfl⟩ := h
  cases hend.symm.trans he
  split
  · next hp =>
    refine (always_moveToTablespace hk (hmoves.exists_head hp)
      (hmoves.head hp)).bind fun _ s1 h1 => ?_
    obtain ⟨hk1, hcools, htable⟩ := h1
    exact ⟨hk1, hmoves.next fun _ => hcools.moveDue_iff htable,
      hdrops.same fun _ => hcools.dropDue_iff⟩
  · next hp => exact ⟨hk, hmoves.skip hp, hdrops⟩

/-- A partition that is due is dropped. -/
theorem always_detachAndDrop (hk : Settling ix now years t s0 s) (hex : Exists s n)
    (hdue : ∀ r ∈ s, r.name = n → dropDue now years t r = true) :
    Goes ix now years t s0 E (detachAndDrop t n)
      (fun _ s' => Settling ix now years t s0 s' ∧ s' = s.delete fun r => r.name = n) s := by
  obtain ⟨r, hr, rfl⟩ := hex
  refine .bind (P := fun _ s' => s' = s.alter r.name .detach Relation.name_detach)
    (.stmt (hk.kept.point rfl fun _ => ⟨(), _, if_pos ?_⟩) fun _ s' hx => ?_)
    fun _ s1 h1 => ?_
  · rw [find?_of_mem hr, any_some]
    exact decide_eq_true (dropDue_true (hdue r hr rfl)).1
  · exact (Option.some.inj (ite_none_right_eq_some.1 hx).2).symm
  subst h1
  have hdetached : r.detach ∈ s.alter r.name .detach Relation.name_detach :=
    (mem_update _).2 (.inr ⟨r, hr, decide_eq_true rfl, rfl⟩)
  refine .stmt ⟨(absurd · Bool.false_ne_true), fun _ => ?_, fun _ => ⟨(), _, if_pos ?_⟩⟩
    fun _ s' hx => ?_
  · refine ⟨r.detach, hdetached, fun u => not_due_of_parent nofun,
      fun u m hm => name_ne_of_dropDue (hdue r hr rfl) hm, _, hk.same, fun r' hr' hn => ?_⟩
    obtain ⟨r1, hr1, hdrop, rfl⟩ := mem_settle.1 hr'
    rw [hdue r1 hr1 (name_chill.symm.trans hn)] at hdrop
    cases hdrop
  · exact isSome_find?.2 ⟨_, hdetached, rfl⟩
  · obtain ⟨-, hx⟩ := ite_none_right_eq_some.1 hx
    have hdel : (s.alter r.name .detach Relation.name_detach).delete (fun r' => r'.name = r.name) =
        s.delete fun r' => r'.name = r.name := delete_update fun _ hn => ⟨hn, hn⟩
    rw [hdel] at hx
    cases hx
    exact ⟨hk.delete hdue, rfl⟩

/-- A turn of the loop that drops. -/
theorem always_dropOld {b : Int} (hb : dropBoundary now years = some b)
    (hk : Settling ix now years t s0 s) (hmoved : ∀ r ∈ s, moveDue now t r = false)
    (hdrops : Todo t (Drops now years) (dropDue now years t) (p :: rest) s) :
    Goes ix now years t s0 E (dropOld t b p)
      (fun _ s' => Settling ix now years t s0 s' ∧ (∀ r ∈ s', moveDue now t r = false) ∧
        Todo t (Drops now years) (dropDue now years t) rest s') s := by
  have hend := addMonths_parsed (hdrops.parsed p mem_cons_self)
  refine .bind (always_expect (by rw [hend]; exact nofun)) fun e s' h => ?_
  obtain ⟨he, rfl⟩ := h
  cases hend.symm.trans he
  split
  · next hle =>
    have hp : Drops now years p := ⟨b, hb, hle⟩
    refine (always_detachAndDrop hk (hdrops.exists_head hp) (hdrops.head hp)).bind fun _ s1 h1 => ?_
    obtain ⟨hk1, rfl⟩ := h1
    refine ⟨hk1, fun r hr => hmoved r (mem_delete.1 hr).1, hdrops.next fun k => ?_⟩
    constructor
    · rintro ⟨r, hr, hdue, rfl⟩
      obtain ⟨hr, hne⟩ := mem_delete.1 hr
      exact ⟨⟨r, hr, hdue, rfl⟩, of_decide_eq_false hne⟩
    · rintro ⟨⟨r, hr, hdue, rfl⟩, hne⟩
      exact ⟨r, mem_delete.2 ⟨hr, decide_eq_false hne⟩, hdue, rfl⟩
  · next hle =>
    refine ⟨hk, hmoved, hdrops.skip fun hp => hle ?_⟩
    obtain ⟨b', hb', hle'⟩ := hp
    cases hb.symm.trans hb'
    exact hle'

/-! ## One table -/

/-- A run for a table leaves it settled, or panics. -/
theorem always_runTable (hE : finishTable ix now years t s = none → E)
    (hpanics : panics now years = true → E) :
    Goes ix now years t s E (runTable now (now + 1) (now - moveAfterMonths) years t)
      (fun _ s' => Settling ix now years t s s' ∧ Settled now years t s' ∧
        (dropBoundary now years).isSome = years.isSome) s := by
  -- the two months
  refine .bind (P := fun _ s' => Settling ix now years t s s') ?_ fun created s1 hk1 => ?_
  · refine (always_createAhead hE .refl (.inl rfl)).bind fun _ s1 h1 => ?_
    have hnext : IsNext now t (now + 1) s1 := .inr ⟨rfl, taken_of_ensure h1.2⟩
    refine .bind ((always_createAhead hE h1.1 hnext).bind fun _ s2 h2 => ?_) fun _ _ h => h
    exact h2.1.settling (hnext.named rfl h2.2)
  refine (always_listPartitions hk1).bind fun ps s2 h2 => ?_
  obtain ⟨rfl, hps⟩ := h2
  -- the moves
  refine .bind (.collect
    (L := fun rest s' => Settling ix now years t s s' ∧
      Todo t (Moves now) (moveDue now t) rest s' ∧
      Todo t (Drops now years) (dropDue now years t) ps s')
    (fun p rest s' h => always_moveOld h.1 h.2.1 h.2.2)
    ⟨hk1, todo_moves hps, todo_drops hps⟩) fun moved s3 h3 => ?_
  obtain ⟨hk3, hmoves, hdrops⟩ := h3
  -- the drops
  cases hyears : years with
  | none =>
    subst hyears
    exact ⟨hk3, fun r hr => ⟨rfl, hmoves.nil r hr⟩, rfl⟩
  | some k =>
    subst hyears
    refine .bind (always_expect fun hnone => hpanics ?_) fun b s4 h4 => ?_
    · simp [panics, hnone]
    obtain ⟨hb, rfl⟩ := h4
    refine .bind (.collect
      (L := fun rest s' => Settling ix now (some k) t s s' ∧
        (∀ r ∈ s', moveDue now t r = false) ∧
        Todo t (Drops now (some k)) (dropDue now (some k) t) rest s')
      (fun p rest s' h => always_dropOld hb h.1 h.2.1 h.2.2)
      ⟨hk3, hmoves.nil, hdrops⟩) fun dropped s5 h5 => ?_
    obtain ⟨hk5, hmoved, hdropped⟩ := h5
    refine ⟨hk5, fun r hr => ⟨hdropped.nil r hr, hmoved r hr⟩, ?_⟩
    rw [dropBoundary, bind_some, hb]
    rfl

/-! ## The whole run -/

variable (ix now years) in
/-- The run for the table begins in `s0`. -/
def Begins (db : Catalogue) : PartitionedTable → Catalogue → Prop
  | .commsRequest, s0 => s0 = db
  | .commsEvent, s0 => finishTable ix now years .commsRequest db = some s0

section
variable (hb : Begins ix now years db t s0)
include hb

theorem Begins.finishTable_some (h : finish ix now years db = some d) :
    ∃ c, finishTable ix now years t s0 = some c ∧
      (t = .commsRequest → finishTable ix now years .commsEvent c = some d) ∧
      (t = .commsEvent → c = d) := by
  obtain ⟨-, c1, h1, h2⟩ := finish_some h
  cases t with
  | commsRequest =>
    cases hb
    exact ⟨c1, h1, fun _ => h2, nofun⟩
  | commsEvent =>
    cases h1.symm.trans hb
    exact ⟨d, h2, nofun, fun _ => rfl⟩

theorem Begins.exists_month (hm : m = now ∨ m = now + 1) (h : Exists db (partitionName u m)) :
    Exists s0 (partitionName u m) := by
  cases t with
  | commsRequest =>
    cases hb
    exact h
  | commsEvent => exact exists_of_finishTable hb hm h

/-- What has the name of a month then is what the run finds. -/
theorem Begins.found (h : s0.taken (partitionName t m) = true) : Found now years db t m := by
  obtain ⟨r, hr, hmem⟩ := taken_iff.1 h
  cases t with
  | commsRequest =>
    cases hb
    exact ⟨r, hr, hmem, nofun⟩
  | commsEvent =>
    rcases row_of_finishTable hb hr with ⟨r0, hr0, hdrop, rfl⟩ | ⟨k, -, hnew, -⟩
    · exact ⟨r0, hr0, names_chill ▸ hmem, fun _ => hdrop⟩
    · exact absurd (hnew.name.symm.trans (hnew.names _ _ hmem)) (partitionName_ne nofun)

/-- What is left for a table is left for the whole run, if the names are taken. -/
theorem Kept.finish_of_names (hk : Kept ix now years t s0 s) (h : finish ix now years db = some d)
    (hnames : ∀ t m, m = now ∨ m = now + 1 → Found now years db t m →
      s.taken (partitionName t m) = true) : finish ix now years s = some d := by
  have hsame := hk.same fun m hm htaken => hnames t m hm (hb.found htaken)
  obtain ⟨hpanics, c1, h1, h2⟩ := finish_some h
  rw [finish, if_neg (by simp [hpanics])]
  cases t with
  | commsRequest =>
    cases hb
    rw [hsame, h1, bind_some, h2]
  | commsEvent =>
    cases h1.symm.trans hb
    obtain ⟨c2, -, -, rfl⟩ := Partition.finishTable_some hb
    have hnamed : Named now .commsRequest s := by
      intro m hm
      rcases month_of_finishTable hb hm with htaken | hex
      · obtain ⟨r, hr, hmem⟩ := taken_iff.1 htaken
        exact hnames _ m hm ⟨r, hr, hmem, nofun⟩
      · exact (hk.stays _ m hm hex).taken
    rw [finishTable_of_named hnamed, settle_of_settled (hk.others .commsRequest nofun
      settled_settle), bind_some, hsame, h2]

/-- The rest leads to the same end just if the names stay taken. -/
theorem Kept.finish_iff (hk : Kept ix now years t s0 s) (h : finish ix now years db = some d) :
    finish ix now years s = some d ↔ ∀ t m, m = now ∨ m = now + 1 → Found now years db t m →
      s.taken (partitionName t m) = true := by
  refine ⟨fun hs u m hm hfound => ?_, hk.finish_of_names hb h⟩
  by_contra hfree
  -- the next run makes a table of the name, which the first one did not
  obtain ⟨r', hr', hname⟩ := exists_of_finish hs hm (Bool.eq_false_iff.2 hfree)
  rcases row_of_finish h hr' with ⟨r, hr, rfl⟩ | ⟨v, k, -, hnew, hnot⟩
  · rw [name_chill, name_chill] at hname
    exact hfree (hk.stays u m hm (hb.exists_month hm ⟨r, hr, hname⟩)).taken
  · have heq := hnew.name.symm.trans hname
    by_cases hv : v = u
    · subst hv
      rw [partitionName_injective heq] at hnot
      exact hnot hfound
    · exact partitionName_ne hv heq

/-- What is stuck leads to another end. -/
theorem Stuck.finish_ne (hs : Stuck ix now years t s0 s) (h : finish ix now years db = some d) :
    finish ix now years s ≠ some d := by
  intro hsame
  obtain ⟨r, hr, hdue, hname, c, hc, hrow⟩ := hs
  obtain ⟨-, s1, h1, h2⟩ := finish_some hsame
  have hmem : r ∈ d := mem_finishTable h2 (mem_finishTable h1 hr (hdue _)) (hdue _)
  obtain ⟨c', hc', hrequest, hevent⟩ := hb.finishTable_some h
  cases hc.symm.trans hc'
  cases t with
  | commsRequest =>
    rcases row_of_finishTable (hrequest rfl) hmem with ⟨r', hr', -, rfl⟩ | ⟨m, hm, hnew, -⟩
    · obtain ⟨hcool, hne⟩ := hrow r' hr' name_chill.symm
      rw [chill, ← hcool, not_moveDue_cool, if_neg Bool.false_ne_true, cool_cool] at hne
      exact hne rfl
    · exact hname _ m hm hnew.name
  | commsEvent =>
    cases hevent rfl
    obtain ⟨hcool, hne⟩ := hrow r hmem rfl
    exact hne hcool

end

variable (ix now years) in
/-- A statement of a run that started in `db`. -/
structure Stop (db : Catalogue) (q : Stmt) (s : Catalogue) : Prop where
  iff : ∀ d, finish ix now years db = some d →
    (finish ix now years s = some d ↔ Resumable now years db s (some q))
  possible : (finish ix now years db).isSome = true → ∃ r s', exec ix q r s = some s'

/-- A statement for a table is one of the whole run. -/
theorem Point.stop {q : Stmt} (h : Point ix now years t s0 q s) (hb : Begins ix now years db t s0) :
    Stop ix now years db q s := by
  refine ⟨fun d hd => ?_, fun hsome => ?_⟩
  · cases hres : resumable now years s (some q) with
    | true =>
      rw [(h.kept hres).finish_iff hb hd]
      exact ⟨fun hnames => ⟨hres, hnames⟩, Resumable.names⟩
    | false =>
      refine ⟨fun hs => absurd hs ((h.stuck hres).finish_ne hb hd), fun hr => ?_⟩
      rw [hr.stmt] at hres
      cases hres
  · obtain ⟨d, hd⟩ := isSome_iff_exists.1 hsome
    obtain ⟨c, hc, -⟩ := hb.finishTable_some hd
    exact h.possible (by rw [hc]; rfl)

variable (ix now years) in
/-- The end of a run that started in `db`. -/
structure Finished (db d : Catalogue) : Prop where
  same : finish ix now years db = some d
  again : finish ix now years d = some d ↔ Resumable now years db d none
  settled : ∀ t, Settled now years t d
  months : ∀ t m, m = now ∨ m = now + 1 → Found now years db t m ∨ Exists d (partitionName t m)
  stays : ∀ t m, m = now ∨ m = now + 1 → Exists db (partitionName t m) →
    Exists d (partitionName t m)

/-- Both tables are settled. -/
theorem Settling.ended (hrequest : Settling ix now years .commsRequest db s0)
    (hs : Settled now years .commsRequest s0) (hevent : Settling ix now years .commsEvent s0 d)
    (hd : Settled now years .commsEvent d) (hp : panics now years = false) :
    Finished ix now years db d := by
  have hb : Begins ix now years db .commsEvent s0 :=
    hrequest.same.trans (congrArg some (settle_of_settled hs))
  have hsame : finish ix now years db = some d := by
    rw [finish, if_neg (by simp [hp]), show _ = some s0 from hb, bind_some, hevent.same,
      settle_of_settled hd]
  refine ⟨hsame, ?_, fun t => ?_, fun t m hm => ?_, fun t m hm h => ?_⟩
  · rw [hevent.kept.finish_iff hb hsame]
    exact ⟨fun hnames => ⟨rfl, hnames⟩, Resumable.names⟩
  · cases t with
    | commsRequest => exact hevent.others _ nofun hs
    | commsEvent => exact hd
  · cases t with
    | commsRequest =>
      refine (hrequest.months m hm).imp (fun htaken => ?_) (hevent.stays _ m hm)
      exact Begins.found (show Begins ix now years db .commsRequest db from rfl) htaken
    | commsEvent => exact (hevent.months m hm).imp_left hb.found
  · exact hevent.stays t m hm (hrequest.stays t m hm h)

theorem subtractMonths_some {a : Int} {k : Nat} {d : Int} (h : subtractMonths a k = some d) :
    d = a - k := by
  unfold subtractMonths at h
  split at h
  · exact (Option.some.inj h).symm
  · cases h

theorem addMonths_some {a : Int} {k : Nat} {d : Int} (h : addMonths a k = some d) : d = a + k := by
  unfold addMonths at h
  split at h
  · exact (Option.some.inj h).symm
  · cases h

/-- At every statement of a run a stop is as described. -/
theorem always_run :
    Prog.Always (exec ix) (Stop ix now years db) (finish ix now years db = none)
      (fun _ d => Finished ix now years db d) (run now years) db := by
  have hE : panics now years = true → finish ix now years db = none := fun h => if_pos h
  refine .bind (always_expect fun hnone => hE ?_) fun next s1 h1 => ?_
  · simp [panics, hnone]
  obtain ⟨hnext, rfl⟩ := h1
  obtain rfl : next = now + 1 := addMonths_some hnext
  refine .bind (always_expect fun hnone => hE ?_) fun boundary s2 h2 => ?_
  · simp [panics, hnone]
  obtain ⟨hboundary, rfl⟩ := h2
  cases subtractMonths_some hboundary
  refine .bind (P := fun _ d => Finished ix now years s2 d) ?_ fun _ _ h => h
  have hrequest : Begins ix now years s2 .commsRequest s2 := rfl
  -- a table that cannot be finished leaves the whole run so
  have hnone : ∀ {t s}, Begins ix now years s2 t s → finishTable ix now years t s = none →
      finish ix now years s2 = none := by
    intro t s hb hnone
    refine Option.eq_none_iff_forall_ne_some.2 fun d hd => ?_
    obtain ⟨c, hc, -⟩ := hb.finishTable_some hd
    rw [hnone] at hc
    cases hc
  refine ((always_runTable (hnone hrequest) hE).mono (fun _ _ h => h.stop hrequest)
    fun _ _ h => h).bind fun _ s3 h3 => ?_
  obtain ⟨hk3, hs3, hretention⟩ := h3
  have hevent : Begins ix now years s2 .commsEvent s3 :=
    hk3.same.trans (congrArg some (settle_of_settled hs3))
  refine .bind (((always_runTable (hnone hevent) hE).mono (fun _ _ h => h.stop hevent)
    fun _ _ h => h).bind fun _ s4 h4 => ?_) fun _ _ h => h
  obtain ⟨hk4, hs4, -⟩ := h4
  refine hk3.ended hs3 hk4 hs4 ?_
  rw [panics, hnext, hboundary]
  cases years with
  | none => rfl
  | some k =>
    rw [dropBoundary, bind_some, isSome_some, isSome_iff_exists] at hretention
    obtain ⟨b, hb⟩ := hretention
    simp [hb]

/-- What a complete run moves has its table and its indexes on the cold tablespace. -/
theorem cool_of_finish (h : finish ix now years c = some d) (hr : r ∈ c)
    (hdue : moveDue now t r = true) (hr' : r' ∈ d) (hn : r'.name = r.name) : r'.cool = r' := by
  rcases row_of_finish h hr' with ⟨r0, hr0, rfl⟩ | ⟨u, m, hm, hnew, -⟩
  · rw [name_chill, name_chill] at hn
    obtain rfl := eq_of_key hr0 hr hn
    cases t with
    | commsRequest =>
      rw [chill, chill, if_pos hdue, if_neg (by simp [not_moveDue_cool]), cool_cool]
    | commsEvent =>
      have hother :
          dropDue now years .commsRequest r0 = false ∧ moveDue now .commsRequest r0 = false :=
        not_due_of_parent (by rw [(moveDue_true hdue).1]; decide)
      have hsame : chill now .commsRequest r0 = r0 := if_neg (by simp [hother.2])
      rw [hsame, chill, if_pos hdue, cool_cool]
  · exact absurd (hn.symm.trans hnew.name) (name_ne_of_moveDue hdue hm)

end

/-- After an interruption, the next run comes to its end and always ends in the catalogue of the
uninterrupted one (the same partitions attached, the same tables, and what was to be moved on the
cold tablespace with all its indexes) exactly if it was at a point where a run may stop. -/
theorem resumed_as_uninterrupted (ix : NewIndexes) (currentMonth : Int)
    (retentionYears : Option Int) (db c d : Catalogue) (p : Action LifecycleReport)
    (hstop : Interrupted ix currentMonth retentionYears db p c)
    (hdb : Completes ix currentMonth retentionYears db d) :
    ((∃ d', Completes ix currentMonth retentionYears c d') ∧
      ∀ d', Completes ix currentMonth retentionYears c d' → d' = d ∧
        ∀ r ∈ db, ∀ t, moveDue currentMonth t r = true → ∀ r' ∈ d', r'.name = r.name →
          r'.tablespace = some coldTablespace ∧
            ∀ i ∈ r'.indexes, i.tablespace = some coldTablespace) ↔
      Resumable currentMonth retentionYears db c p.next := by
  obtain ⟨report, hdb⟩ := hdb
  have hd : finish ix currentMonth retentionYears db = some d := (always_run.steps hdb).same
  have hiff : finish ix currentMonth retentionYears c = some d ↔
      Resumable currentMonth retentionYears db c p.next := by
    have hat := always_run.steps hstop
    cases p with
    | ret report =>
      obtain rfl := Option.some.inj (hd.symm.trans hat.same)
      exact hat.again
    | fail e => exact absurd hd (by rw [show _ = none from hat]; exact nofun)
    | call q k => exact hat.1.iff d hd
  rw [← hiff]
  constructor
  · rintro ⟨⟨d', report', hsteps⟩, hall⟩
    rw [← (hall d' ⟨report', hsteps⟩).1]
    exact (always_run.steps hsteps).same
  · intro hc
    refine ⟨?_, ?_⟩
    · obtain ⟨report', d', hsteps, -⟩ := always_run.returns (by rw [hc]; exact nofun)
        fun q s h => h.possible (by rw [hc]; rfl)
      exact ⟨d', report', hsteps⟩
    · rintro d' ⟨report', hsteps⟩
      obtain rfl : d = d' := Option.some.inj (hc.symm.trans (always_run.steps hsteps).same)
      refine ⟨rfl, fun r hr t hdue r' hr' hn => ?_⟩
      rw [← cool_of_finish hd hr hdue hr' hn]
      refine ⟨rfl, fun i hi => ?_⟩
      obtain ⟨i0, -, rfl⟩ := List.mem_map.1 hi
      rfl

/-! ## Fixed runs -/

/-- The answers in the order of the catalogue. -/
def answer : (q : Stmt) → Catalogue → q.Answer
  | .partitionExists name, c => c.taken name
  | .listPartitions table, c => c.attached table
  | .indexNames name, c => c.indexNames name
  | .createPartition _ _, _ => ()
  | .setTablespace _, _ => ()
  | .setIndexTablespace _ _, _ => ()
  | .detachPartition _ _, _ => ()
  | .dropTable _, _ => ()

/-- What is left of a run after `n` statements, and the catalogue there. -/
def runFor (currentMonth : Int) (retentionYears : Option Int) (n : Nat) (db : Catalogue) :
    Option (Action LifecycleReport × Catalogue) :=
  Prog.walk (exec .none) answer n (run currentMonth retentionYears) db

/-- A run that stops after `n` statements, and the complete ones from there and the start. -/
theorem exists_runs (currentMonth : Int) (retentionYears : Option Int) (n : Nat) (db : Catalogue)
    (P : Option Stmt → Catalogue → Catalogue → Catalogue → Bool)
    (h : ((runFor currentMonth retentionYears n db).any fun stop =>
      (runFor currentMonth retentionYears 40 db).any fun once =>
        (runFor currentMonth retentionYears 40 stop.2).any fun again =>
          once.1.value.isSome && again.1.value.isSome &&
            P stop.1.next stop.2 once.2 again.2) = true) :
    ∃ p c d d', Interrupted .none currentMonth retentionYears db p c ∧
      Completes .none currentMonth retentionYears db d ∧
      Completes .none currentMonth retentionYears c d' ∧ P p.next c d d' = true := by
  obtain ⟨⟨p, c⟩, hstop, h⟩ := (any_eq_true _ _).1 h
  obtain ⟨⟨p1, d⟩, honce, h⟩ := (any_eq_true _ _).1 h
  obtain ⟨⟨p2, d'⟩, hagain, h⟩ := (any_eq_true _ _).1 h
  simp only [Bool.and_eq_true] at h
  obtain ⟨a, ha⟩ := isSome_iff_exists.1 h.1.1
  obtain ⟨b, hb⟩ := isSome_iff_exists.1 h.1.2
  obtain rfl := Prog.value_some ha
  obtain rfl := Prog.value_some hb
  exact ⟨p, c, d, d', Prog.walk_steps hstop, ⟨a, Prog.walk_steps honce⟩,
    ⟨b, Prog.walk_steps hagain⟩, h.2⟩

/-- The partition of a month. -/
def monthly (t : PartitionedTable) (m : Int) : Relation :=
  { name := partitionName t m, parent := some t, bounds := .month m, tablespace := none,
    indexes := [] }

/-- The partitions of a month and the next one, for both tables. -/
def twoMonths (m : Int) : List Relation :=
  [monthly .commsRequest m, monthly .commsRequest (m + 1), monthly .commsEvent m,
    monthly .commsEvent (m + 1)]

/-- A partition of January 2015 with its index, and others. -/
def sample (others : List Relation) : Catalogue :=
  .ofList ({ monthly .commsRequest 24180 with
    indexes := [⟨"comms_request_2015_01_pkey", none⟩] } :: others)

/-- November 2026. -/
def sampleMonth : Int := 24322

/-- A run interrupted after the partition's index is moved, before it is detached. -/
theorem resumed_as_uninterrupted_moved :
    ∃ p c d, Interrupted .none sampleMonth (some 10) (sample (twoMonths sampleMonth)) p c ∧
      Completes .none sampleMonth (some 10) (sample (twoMonths sampleMonth)) d ∧
      p.next = some (.detachPartition .commsRequest "comms_request_2015_01") ∧
      Resumable sampleMonth (some 10) (sample (twoMonths sampleMonth)) c p.next ∧
      (∃ d', Completes .none sampleMonth (some 10) c d') ∧
        ∀ d', Completes .none sampleMonth (some 10) c d' → d' = d := by
  obtain ⟨p, c, d, d', hstop, hdb, -, h⟩ := exists_runs sampleMonth (some 10) 6
    (sample (twoMonths sampleMonth))
    (fun q c _ _ => q = some (.detachPartition .commsRequest "comms_request_2015_01") &&
      (twoMonths sampleMonth).all fun r => c.taken r.name) (by decide +kernel)
  rw [Bool.and_eq_true, decide_eq_true_eq] at h
  have hres : Resumable sampleMonth (some 10) (sample (twoMonths sampleMonth)) c p.next := by
    refine ⟨by rw [h.1]; rfl, fun t m hm _ => ?_⟩
    refine all_eq_true.1 h.2 (monthly t m) ?_
    rcases hm with rfl | rfl <;> cases t <;> simp [twoMonths]
  obtain ⟨hex, hsame⟩ := (resumed_as_uninterrupted _ _ _ _ c d p hstop hdb).2 hres
  exact ⟨p, c, d, hstop, hdb, h.1, hres, hex, fun d' hd' => (hsame d' hd').1⟩

/-- A run that is interrupted between `DETACH` and `DROP` leaves a table that no later run drops;
one that is interrupted between the table and its index leaves an index that no later run moves. -/
theorem lifecycle_not_resumed :
    (∃ p c d d', Interrupted .none sampleMonth (some 10) (sample []) p c ∧
      Completes .none sampleMonth (some 10) (sample []) d ∧
      Completes .none sampleMonth (some 10) c d' ∧
      (d.find? "comms_request_2015_01").isSome = false ∧
      (d'.find? "comms_request_2015_01").isSome = true) ∧
    ∃ p c d d', Interrupted .none sampleMonth none (sample []) p c ∧
      Completes .none sampleMonth none (sample []) d ∧
      Completes .none sampleMonth none c d' ∧
      (d.find? "comms_request_2015_01").map (fun r => (r.tablespace, r.indexes)) =
        some (some coldTablespace, [⟨"comms_request_2015_01_pkey", some coldTablespace⟩]) ∧
      (d'.find? "comms_request_2015_01").map (fun r => (r.tablespace, r.indexes)) =
        some (some coldTablespace, [⟨"comms_request_2015_01_pkey", none⟩]) := by
  constructor
  · obtain ⟨p, c, d, d', hstop, hdb, hc, h⟩ := exists_runs sampleMonth (some 10) 9 (sample [])
      (fun _ _ d d' => !(d.find? "comms_request_2015_01").isSome &&
        (d'.find? "comms_request_2015_01").isSome) (by decide +kernel)
    rw [Bool.and_eq_true, Bool.not_eq_true'] at h
    exact ⟨p, c, d, d', hstop, hdb, hc, h⟩
  · obtain ⟨p, c, d, d', hstop, hdb, hc, h⟩ := exists_runs sampleMonth none 6 (sample [])
      (fun _ _ d d' =>
        (d.find? "comms_request_2015_01").map (fun r => (r.tablespace, r.indexes)) =
          some (some coldTablespace, [⟨"comms_request_2015_01_pkey", some coldTablespace⟩]) &&
        (d'.find? "comms_request_2015_01").map (fun r => (r.tablespace, r.indexes)) =
          some (some coldTablespace, [⟨"comms_request_2015_01_pkey", none⟩])) (by decide +kernel)
    rw [Bool.and_eq_true, decide_eq_true_eq, decide_eq_true_eq] at h
    exact ⟨p, c, d, d', hstop, hdb, hc, h⟩

end Messgr.Partition
