import Messgr.Partition.Lifecycle

/-!
# What is left for the partition lifecycle to do

What a complete run makes of a catalogue, as a function of the catalogue (`finish`): the names of
the two months are taken, what is due to be dropped is gone and what is due to be moved is cold. A
month that is created leaves that function's value as it was (`Ensured`), and so does a partition
that is moved or dropped completely (`Settling.cools`, `Settling.delete`), while no name of a
month is lost with an index of it (`Kept`).
-/

namespace Messgr.Partition

open List Option Table Bool

/-! ## What is due -/

/-- A partition attached to the table whose month ended by the boundary. -/
def Relation.endedBy (r : Relation) (table : PartitionedTable) (boundary : Int) : Bool :=
  r.parent = some table && (parsePartitionMonth table r.name).any fun month => month + 1 ≤ boundary

def Relation.cool (r : Relation) : Relation :=
  { r with tablespace := some coldTablespace, indexes := r.indexes.map Index.cool }

theorem Relation.name_cool (r : Relation) : r.cool.name = r.name := rfl

section
variable (ix : NewIndexes) (currentMonth : Int) (retentionYears : Option Int)

def dropBoundary : Option Int :=
  retentionYears.bind fun years => subtractMonths currentMonth (retentionMonths years)

/-- To be moved to the cold tablespace. -/
def moveDue (table : PartitionedTable) (r : Relation) : Bool :=
  r.endedBy table (currentMonth - moveAfterMonths) && r.tablespace ≠ some coldTablespace

/-- A row that is moved if it is due. -/
def chill (table : PartitionedTable) (r : Relation) : Relation :=
  if moveDue currentMonth table r then r.cool else r

/-- To be dropped. -/
def dropDue (table : PartitionedTable) (r : Relation) : Bool :=
  (dropBoundary currentMonth retentionYears).any (r.endedBy table)

/-- An `expect` of the run is not met. -/
def panics : Bool :=
  (addMonths currentMonth 1).isNone || (subtractMonths currentMonth moveAfterMonths).isNone ||
    retentionYears.any fun years => (subtractMonths currentMonth (retentionMonths years)).isNone

/-- The name of the month is taken. -/
def ensure (table : PartitionedTable) (month : Int) (c : Catalogue) : Option Catalogue :=
  if c.taken (partitionName table month) then some c
  else (addMonths month 1).bind fun _ => c.createPartition ix table month

/-- What is due is done. -/
def settle (table : PartitionedTable) (c : Catalogue) : Catalogue :=
  (c.delete (dropDue currentMonth retentionYears table)).update (moveDue currentMonth table)
    Relation.cool Relation.name_cool

def finishTable (table : PartitionedTable) (c : Catalogue) : Option Catalogue :=
  (ensure ix table currentMonth c).bind fun c =>
    (ensure ix table (currentMonth + 1) c).map (settle currentMonth retentionYears table)

/-- What a complete run makes of a catalogue. -/
def finish (c : Catalogue) : Option Catalogue :=
  if panics currentMonth retentionYears then none
  else (finishTable ix currentMonth retentionYears .commsRequest c).bind
    (finishTable ix currentMonth retentionYears .commsEvent)

end

section
variable {ix : NewIndexes} {now : Int} {years : Option Int}
variable {t u : PartitionedTable} {r r' : Relation} {c c' s s0 s' : Catalogue} {n : String}
variable {b : Int}

/-! ## Rows -/

theorem endedBy_congr (hn : r'.name = r.name) (hp : r'.parent = r.parent) :
    r'.endedBy t b = r.endedBy t b := by
  rw [Relation.endedBy, Relation.endedBy, hn, hp]

theorem dropDue_congr (hn : r'.name = r.name) (hp : r'.parent = r.parent) :
    dropDue now years t r' = dropDue now years t r := by
  rw [dropDue, dropDue, show r'.endedBy t = r.endedBy t from funext fun _ => endedBy_congr hn hp]

theorem endedBy_true (h : r.endedBy t b = true) :
    r.parent = some t ∧ ∃ m, parsePartitionMonth t r.name = some m ∧ m + 1 ≤ b := by
  rw [Relation.endedBy, and_eq_true, decide_eq_true_eq] at h
  obtain ⟨m, hm, hle⟩ := (any_eq_true _ _).1 h.2
  exact ⟨h.1, m, hm, of_decide_eq_true hle⟩

theorem moveDue_true (h : moveDue now t r = true) :
    r.parent = some t ∧ r.tablespace ≠ some coldTablespace ∧
      ∃ m, parsePartitionMonth t r.name = some m ∧ m + 1 ≤ now - moveAfterMonths := by
  rw [moveDue, and_eq_true, decide_eq_true_eq] at h
  exact ⟨(endedBy_true h.1).1, h.2, (endedBy_true h.1).2⟩

theorem dropDue_true (h : dropDue now years t r = true) :
    r.parent = some t ∧ ∃ m, parsePartitionMonth t r.name = some m ∧
      ∃ b, dropBoundary now years = some b ∧ m + 1 ≤ b := by
  obtain ⟨b, hb, h⟩ := (any_eq_true _ _).1 h
  obtain ⟨hp, m, hm, hle⟩ := endedBy_true h
  exact ⟨hp, m, hm, b, hb, hle⟩

theorem not_due_of_parent (hp : r.parent ≠ some t) :
    dropDue now years t r = false ∧ moveDue now t r = false :=
  ⟨eq_false_iff.2 fun h => hp (dropDue_true h).1, eq_false_iff.2 fun h => hp (moveDue_true h).1⟩

/-- The retention does not reach into the future. -/
theorem dropBoundary_le (h : dropBoundary now years = some b) : b ≤ now := by
  obtain ⟨_, -, h⟩ := bind_eq_some_iff.1 h
  unfold subtractMonths at h
  split at h
  · cases h
    omega
  · cases h

/-- The months that are past are none of those created ahead, for any table. -/
theorem name_ne_of_parsed {m m' : Int} (hparse : parsePartitionMonth t r.name = some m')
    (hle : m' + 1 ≤ now) (hm : m = now ∨ m = now + 1) : r.name ≠ partitionName u m := by
  intro hname
  by_cases hut : u = t
  · subst hut
    have := parse_partitionName (hname ▸ hparse)
    omega
  · exact parse_of_ne hut (hname ▸ hparse)

theorem name_ne_of_dropDue (h : dropDue now years t r = true) {m : Int}
    (hm : m = now ∨ m = now + 1) : r.name ≠ partitionName u m := by
  obtain ⟨-, m', hparse, b, hb, hle⟩ := dropDue_true h
  exact name_ne_of_parsed hparse (Int.le_trans hle (dropBoundary_le hb)) hm

theorem name_ne_of_moveDue (h : moveDue now t r = true) {m : Int}
    (hm : m = now ∨ m = now + 1) : r.name ≠ partitionName u m := by
  obtain ⟨-, -, m', hparse, hle⟩ := moveDue_true h
  exact name_ne_of_parsed hparse (by omega) hm

/-- A cold table with cold indexes. -/
theorem cool_eq_self (ht : r.tablespace = some coldTablespace)
    (hi : ∀ i ∈ r.indexes, i.tablespace = some coldTablespace) : r.cool = r := by
  have hmap : r.indexes.map Index.cool = r.indexes := by
    refine (map_congr_left fun i hmem => ?_).trans (map_id _)
    rw [Index.cool, ← hi i hmem]
    rfl
  rw [Relation.cool, hmap, ← ht]

theorem cool_cool (r : Relation) : r.cool.cool = r.cool := by
  refine cool_eq_self rfl fun i hi => ?_
  obtain ⟨i0, -, rfl⟩ := mem_map.1 hi
  rfl

theorem name_chill : (chill now t r).name = r.name := by
  unfold chill
  split
  · rfl
  · rfl

theorem not_moveDue_cool : moveDue now t r.cool = false := by
  simp [moveDue, Relation.cool]

/-! ## Settling -/

theorem rows_settle : (settle now years t c).rows =
    (c.rows.filter fun r => !dropDue now years t r).map (chill now t) :=
  rfl

/-- A change of rows that settling undoes. -/
theorem settle_map {g : Relation → Relation} (hrows : c'.rows = c.rows.map g)
    (hdrop : ∀ r ∈ c, dropDue now years t (g r) = dropDue now years t r)
    (hmove : ∀ r ∈ c, dropDue now years t r = false →
      chill now t (g r) = chill now t r) : settle now years t c' = settle now years t c := by
  refine ext_rows ?_
  rw [rows_settle, rows_settle, hrows, List.filter_map, List.map_map]
  have hfilter : (c.rows.filter ((fun r => !dropDue now years t r) ∘ g)) =
      c.rows.filter fun r => !dropDue now years t r :=
    filter_congr fun r hr => by simp only [Function.comp, hdrop r hr]
  rw [hfilter]
  refine map_congr_left fun r hr => ?_
  obtain ⟨hr, hnot⟩ := mem_filter.1 hr
  exact hmove r hr (by simpa using hnot)

/-- The deletion of what is to be dropped. -/
theorem settle_delete {p : Relation → Bool}
    (hp : ∀ r ∈ c, p r = true → dropDue now years t r = true) :
    settle now years t (c.delete p) = settle now years t c := by
  refine ext_rows ?_
  rw [rows_settle, rows_settle]
  refine congrArg _ ?_
  show (c.rows.filter _).filter _ = _
  rw [List.filter_filter]
  refine filter_congr fun r hr => ?_
  cases hpr : p r with
  | false => simp
  | true => simp [hp r hr hpr]

/-! ## Finished tables -/

/-- The table of a name is there. -/
def Exists (c : Catalogue) (name : String) : Prop := ∃ r ∈ c, r.name = name

theorem isSome_find? : (c.find? n).isSome = true ↔ Exists c n := by
  rw [isSome_iff_exists]
  constructor
  · rintro ⟨r, hr⟩
    exact ⟨r, find?_some hr⟩
  · rintro ⟨r, hr, rfl⟩
    exact ⟨r, find?_of_mem hr⟩

theorem Exists.mono (h : ∀ r ∈ c, r ∈ c') (hn : Exists c n) : Exists c' n :=
  hn.imp fun _ hr => ⟨h _ hr.1, hr.2⟩

theorem taken_iff : c.taken n = true ↔ ∃ r ∈ c, n ∈ r.names := by
  simp only [Catalogue.taken, List.any_eq_true, decide_eq_true_eq, Table.mem_def]

theorem Exists.taken (h : Exists c n) : c.taken n = true := by
  obtain ⟨r, hr, rfl⟩ := h
  exact taken_iff.2 ⟨r, hr, mem_cons_self⟩

theorem taken_mono (h : ∀ r ∈ c, r ∈ c') (hn : c.taken n = true) : c'.taken n = true := by
  obtain ⟨r, hr, hmem⟩ := taken_iff.1 hn
  exact taken_iff.2 ⟨r, h r hr, hmem⟩

variable (now) in
/-- The names of the two months are taken. -/
def Named (t : PartitionedTable) (c : Catalogue) : Prop :=
  ∀ m, m = now ∨ m = now + 1 → c.taken (partitionName t m) = true

variable (now years) in
/-- Nothing of the table is due. -/
def Settled (t : PartitionedTable) (c : Catalogue) : Prop :=
  ∀ r ∈ c, dropDue now years t r = false ∧ moveDue now t r = false

theorem ensure_of_taken {m : Int} (h : c.taken (partitionName t m) = true) :
    ensure ix t m c = some c :=
  if_pos h

theorem finishTable_of_named (h : Named now t c) :
    finishTable ix now years t c = some (settle now years t c) := by
  rw [finishTable, ensure_of_taken (h _ (.inl rfl)), bind_some, ensure_of_taken (h _ (.inr rfl)),
    map_some]

theorem settle_of_settled (h : Settled now years t c) : settle now years t c = c := by
  rw [settle, delete_of_not fun r hr => (h r hr).1, update_of_not fun r hr => (h r hr).2]

theorem mem_settle : r' ∈ settle now years t c ↔
    ∃ r ∈ c, dropDue now years t r = false ∧ r' = chill now t r := by
  rw [Table.mem_def, rows_settle, List.mem_map]
  constructor
  · rintro ⟨r, hr, rfl⟩
    obtain ⟨hr, hdrop⟩ := mem_filter.1 hr
    exact ⟨r, hr, by simpa using hdrop, rfl⟩
  · rintro ⟨r, hr, hdrop, rfl⟩
    exact ⟨r, mem_filter.2 ⟨hr, by simpa using hdrop⟩, rfl⟩

theorem settled_settle : Settled now years t (settle now years t c) := by
  intro r' hr'
  obtain ⟨r, -, hdrop, rfl⟩ := mem_settle.1 hr'
  unfold chill
  split
  · exact ⟨hdrop, not_moveDue_cool⟩
  · next hmove => exact ⟨hdrop, eq_false_iff.2 hmove⟩

/-! ## Months created ahead -/

/-- The partition of a month, with its name and its bounds. -/
structure Relation.IsMonth (r : Relation) (t : PartitionedTable) (m : Int) : Prop where
  name : r.name = partitionName t m
  parent : r.parent = some t
  bounds : r.bounds = .month m

/-- Such a partition as created: no index of it has the name of a partition. -/
structure Relation.IsNew (r : Relation) (t : PartitionedTable) (m : Int) : Prop
    extends r.IsMonth t m where
  names : ∀ u k, partitionName u k ∈ r.names → r.name = partitionName u k

variable {m : Int}

theorem createPartition_some (h : c.createPartition ix t m = some c') :
    ∃ r, r.IsNew t m ∧ ∀ r', r' ∈ c' ↔ r' ∈ c ∨ r' = r := by
  unfold Catalogue.createPartition at h
  split at h
  · cases h
  · refine ⟨_, ⟨⟨rfl, rfl, rfl⟩, fun u k hk => ?_⟩, (insert?_some h).2⟩
    rcases mem_cons.1 hk with heq | hk
    · exact heq.symm
    · obtain ⟨i, hi, heq⟩ := mem_map.1 hk
      exact absurd heq (ix.name_ne c t m i hi u k)

/-- A month that is looked at has its name taken, or gets its partition. -/
theorem ensure_some (h : ensure ix t m c = some c') :
    c.taken (partitionName t m) = true ∧ c' = c ∨
      c.taken (partitionName t m) = false ∧ ∃ r, r.IsNew t m ∧ ∀ r', r' ∈ c' ↔ r' ∈ c ∨ r' = r := by
  unfold ensure at h
  split at h
  · next htaken =>
    cases h
    exact .inl ⟨htaken, rfl⟩
  · next htaken =>
    obtain ⟨_, -, h⟩ := bind_eq_some_iff.1 h
    exact .inr ⟨eq_false_iff.2 htaken, createPartition_some h⟩

section
variable (h : ensure ix t m c = some c')
include h

theorem mem_of_ensure : ∀ r ∈ c, r ∈ c' := by
  intro r hr
  rcases ensure_some h with ⟨-, rfl⟩ | ⟨-, r1, -, hmem⟩
  · exact hr
  · exact (hmem r).2 (.inl hr)

theorem new_of_ensure :
    ∀ r ∈ c', r ∈ c ∨ r.IsNew t m ∧ c.taken (partitionName t m) = false := by
  intro r hr
  rcases ensure_some h with ⟨-, rfl⟩ | ⟨htaken, r1, hnew, hmem⟩
  · exact .inl hr
  · rcases (hmem r).1 hr with hr | rfl
    · exact .inl hr
    · exact .inr ⟨hnew, htaken⟩

theorem exists_of_ensure : c.taken (partitionName t m) = true ∨ Exists c' (partitionName t m) := by
  rcases ensure_some h with ⟨htaken, -⟩ | ⟨-, r, hnew, hmem⟩
  · exact .inl htaken
  · exact .inr ⟨r, (hmem r).2 (.inr rfl), hnew.name⟩

theorem taken_of_ensure : c'.taken (partitionName t m) = true := by
  rcases exists_of_ensure h with htaken | hex
  · exact taken_mono (mem_of_ensure h) htaken
  · exact hex.taken

end

variable (now) in
/-- The month is the next to be looked at: the name of the one before is taken. -/
def IsNext (t : PartitionedTable) (m : Int) (c : Catalogue) : Prop :=
  m = now ∨ m = now + 1 ∧ c.taken (partitionName t now) = true

/-- Looking at the next month is the first thing that is left to be done. -/
theorem finishTable_isNext (hm : IsNext now t m c) :
    finishTable ix now years t c = (ensure ix t m c).bind (finishTable ix now years t) := by
  rcases hm with rfl | ⟨rfl, htaken⟩
  · cases he : ensure ix t m c with
    | none => rw [finishTable, he, bind_none, bind_none]
    | some c' =>
      rw [finishTable, he, bind_some, bind_some, finishTable,
        ensure_of_taken (taken_of_ensure he), bind_some]
  · rw [finishTable, ensure_of_taken htaken, bind_some]
    cases he : ensure ix t (now + 1) c with
    | none => rfl
    | some c' =>
      rw [map_some, bind_some, finishTable_of_named]
      rintro m (rfl | rfl)
      · exact taken_mono (mem_of_ensure he) htaken
      · exact taken_of_ensure he

variable (ix now years) in
/-- Some of the months of the table `t` are looked at, from `s0` on. -/
structure Ensured (t : PartitionedTable) (s0 s : Catalogue) : Prop where
  same : finishTable ix now years t s = finishTable ix now years t s0
  mono : ∀ r ∈ s0, r ∈ s
  new : ∀ r ∈ s, r ∈ s0 ∨
    ∃ m, (m = now ∨ m = now + 1) ∧ r.IsNew t m ∧ s0.taken (partitionName t m) = false

theorem Ensured.refl : Ensured ix now years t c c :=
  ⟨rfl, fun _ h => h, fun _ h => .inl h⟩

theorem Ensured.next (h : Ensured ix now years t s0 s) (hm : IsNext now t m s)
    (he : ensure ix t m s = some s') : Ensured ix now years t s0 s' := by
  refine ⟨?_, fun r hr => mem_of_ensure he r (h.mono r hr), fun r hr => ?_⟩
  · rw [← h.same, finishTable_isNext hm, he, bind_some]
  · rcases new_of_ensure he r hr with hr | ⟨hnew, hfree⟩
    · exact h.new r hr
    · refine .inr ⟨m, hm.imp_right And.left, hnew, eq_false_iff.2 fun htaken => ?_⟩
      rw [taken_mono h.mono htaken] at hfree
      cases hfree

theorem IsNext.named (hm : IsNext now t m c) (hlast : m = now + 1) (h : ensure ix t m c = some c') :
    Named now t c' := by
  rintro k (rfl | rfl)
  · rcases hm with rfl | ⟨-, htaken⟩
    · omega
    · exact taken_mono (mem_of_ensure h) htaken
  · exact hlast ▸ taken_of_ensure h

/-- The months are looked at, and then what is due is done. -/
theorem finishTable_some (h : finishTable ix now years t c = some c') :
    ∃ c2, Ensured ix now years t c c2 ∧ Named now t c2 ∧ c' = settle now years t c2 := by
  obtain ⟨c1, h1, h⟩ := bind_eq_some_iff.1 h
  obtain ⟨c2, h2, rfl⟩ := map_eq_some_iff.1 h
  have hnext : IsNext now t (now + 1) c1 := .inr ⟨rfl, taken_of_ensure h1⟩
  exact ⟨c2, (Ensured.refl.next (.inl rfl) h1).next hnext h2, hnext.named rfl h2, rfl⟩

variable (ix now years) in
/-- What is done for the table `t` from `s0` on leaves what is left to be done for it, if the names
of its months that were taken still are; it leaves the tables of months, and nothing to do for the
other table. -/
structure Kept (t : PartitionedTable) (s0 s : Catalogue) : Prop where
  same : (∀ m, m = now ∨ m = now + 1 → s0.taken (partitionName t m) = true →
    s.taken (partitionName t m) = true) →
    finishTable ix now years t s = finishTable ix now years t s0
  stays : ∀ u m, m = now ∨ m = now + 1 → Exists s0 (partitionName u m) →
    Exists s (partitionName u m)
  others : ∀ u, u ≠ t → Settled now years u s0 → Settled now years u s

theorem Ensured.kept (h : Ensured ix now years t s0 s) : Kept ix now years t s0 s := by
  refine ⟨fun _ => h.same, fun _ _ _ hex => hex.mono h.mono, fun u hu hs r hr => ?_⟩
  rcases h.new r hr with hr | ⟨m, -, hnew, -⟩
  · exact hs r hr
  · exact not_due_of_parent (by rw [hnew.parent]; exact fun h => hu (Option.some.inj h).symm)

variable (ix now years) in
/-- The months of `t` are looked at, then a part of what is due is done: what is left is what is due
in `s`. -/
structure Settling (t : PartitionedTable) (s0 s : Catalogue) : Prop where
  same : finishTable ix now years t s0 = some (settle now years t s)
  months : ∀ m, m = now ∨ m = now + 1 →
    s0.taken (partitionName t m) = true ∨ Exists s (partitionName t m)
  stays : ∀ u m, m = now ∨ m = now + 1 → Exists s0 (partitionName u m) →
    Exists s (partitionName u m)
  others : ∀ u, u ≠ t → Settled now years u s0 → Settled now years u s

theorem Ensured.settling (h : Ensured ix now years t s0 s) (hn : Named now t s) :
    Settling ix now years t s0 s := by
  refine ⟨h.same.symm.trans (finishTable_of_named hn), fun m hm => ?_, h.kept.stays, h.kept.others⟩
  obtain ⟨r, hr, hmem⟩ := taken_iff.1 (hn m hm)
  rcases h.new r hr with hr0 | ⟨k, -, hnew, -⟩
  · exact .inl (taken_iff.2 ⟨r, hr0, hmem⟩)
  · exact .inr ⟨r, hr, hnew.names t m hmem⟩

theorem Settling.kept (h : Settling ix now years t s0 s) : Kept ix now years t s0 s := by
  refine ⟨fun hnames => ?_, h.stays, h.others⟩
  rw [h.same, finishTable_of_named fun m hm => ?_]
  exact (h.months m hm).elim (hnames m hm) Exists.taken

/-! ## The rows of a finished table -/

theorem chill_eq_or : chill now t r = r ∨ chill now t r = r.cool := by
  unfold chill
  split
  · exact .inr rfl
  · exact .inl rfl

theorem names_chill : (chill now t r).names = r.names := by
  rcases chill_eq_or with heq | heq
  · rw [heq]
  · rw [heq]
    simp [Relation.names, Relation.cool, Index.cool, Function.comp_def]

theorem Relation.IsMonth.chill (h : r.IsMonth u m) : (chill now t r).IsMonth u m := by
  rcases chill_eq_or with heq | heq
  · rwa [heq]
  · rw [heq]
    exact ⟨h.name, h.parent, h.bounds⟩

theorem Relation.IsNew.chill (h : r.IsNew u m) : (chill now t r).IsNew u m :=
  ⟨h.toIsMonth.chill, by rw [names_chill, name_chill]; exact h.names⟩

/-- The tables of the two months stay. -/
theorem exists_settle (hm : m = now ∨ m = now + 1) (h : Exists c (partitionName u m)) :
    Exists (settle now years t c) (partitionName u m) := by
  obtain ⟨r, hr, hn⟩ := h
  refine ⟨_, mem_settle.2 ⟨r, hr, eq_false_iff.2 fun hdue => ?_, rfl⟩, name_chill.trans hn⟩
  exact name_ne_of_dropDue hdue hm hn

section
variable (h : finishTable ix now years t c = some c')
include h

/-- Where the rows of a finished table come from. -/
theorem row_of_finishTable (hr' : r' ∈ c') :
    (∃ r ∈ c, dropDue now years t r = false ∧ r' = chill now t r) ∨
      ∃ m, (m = now ∨ m = now + 1) ∧ r'.IsNew t m ∧ c.taken (partitionName t m) = false := by
  obtain ⟨c2, hensured, -, rfl⟩ := finishTable_some h
  obtain ⟨r, hr, hdrop, rfl⟩ := mem_settle.1 hr'
  rcases hensured.new r hr with hr | ⟨m, hm, hnew, hfree⟩
  · exact .inl ⟨r, hr, hdrop, rfl⟩
  · exact .inr ⟨m, hm, hnew.chill, hfree⟩

theorem chill_mem_finishTable (hr : r ∈ c) (hdrop : dropDue now years t r = false) :
    chill now t r ∈ c' := by
  obtain ⟨c2, hensured, -, rfl⟩ := finishTable_some h
  exact mem_settle.2 ⟨r, hensured.mono r hr, hdrop, rfl⟩

/-- What is not due is in the finished table as it was. -/
theorem mem_finishTable (hr : r ∈ c)
    (hdue : dropDue now years t r = false ∧ moveDue now t r = false) : r ∈ c' := by
  have hmem := chill_mem_finishTable h hr hdue.1
  rwa [chill, hdue.2] at hmem

theorem exists_of_finishTable (hm : m = now ∨ m = now + 1) (hex : Exists c (partitionName u m)) :
    Exists c' (partitionName u m) := by
  obtain ⟨c2, hensured, -, rfl⟩ := finishTable_some h
  exact exists_settle hm (hex.mono hensured.mono)

/-- A month has its table, or its name was taken. -/
theorem month_of_finishTable (hm : m = now ∨ m = now + 1) :
    c.taken (partitionName t m) = true ∨ Exists c' (partitionName t m) := by
  obtain ⟨c2, hensured, hnamed, rfl⟩ := finishTable_some h
  exact ((hensured.settling hnamed).months m hm).imp_right (exists_settle hm)

end

/-! ## Both tables -/

variable (now years) in
/-- What a run finds under the name of a month. It looks for those of `comms_event` when it has
dropped partitions of `comms_request`. -/
def Found (db : Catalogue) (t : PartitionedTable) (m : Int) : Prop :=
  ∃ r ∈ db, partitionName t m ∈ r.names ∧
    (t = .commsEvent → dropDue now years .commsRequest r = false)

section
variable {d : Catalogue} (h : finish ix now years c = some d)
include h

theorem finish_some : panics now years = false ∧
    ∃ c1, finishTable ix now years .commsRequest c = some c1 ∧
      finishTable ix now years .commsEvent c1 = some d := by
  unfold finish at h
  split at h
  · cases h
  · next hp => exact ⟨eq_false_iff.2 hp, bind_eq_some_iff.1 h⟩

/-- Where the rows come from that a complete run leaves. -/
theorem row_of_finish (hr' : r' ∈ d) :
    (∃ r ∈ c, r' = chill now .commsEvent (chill now .commsRequest r)) ∨
      ∃ u m, (m = now ∨ m = now + 1) ∧ r'.IsNew u m ∧ ¬ Found now years c u m := by
  obtain ⟨-, c1, h1, h2⟩ := finish_some h
  rcases row_of_finishTable h2 hr' with ⟨r1, hr1, -, rfl⟩ | ⟨m, hm, hnew, hfree⟩
  · rcases row_of_finishTable h1 hr1 with ⟨r, hr, -, rfl⟩ | ⟨m, hm, hnew, hfree⟩
    · exact .inl ⟨r, hr, rfl⟩
    · refine .inr ⟨_, m, hm, hnew.chill, ?_⟩
      rintro ⟨r, hr, hmem, -⟩
      rw [taken_iff.2 ⟨r, hr, hmem⟩] at hfree
      cases hfree
  · refine .inr ⟨_, m, hm, hnew, ?_⟩
    rintro ⟨r, hr, hmem, hdrop⟩
    have htaken := taken_iff.2 ⟨_, chill_mem_finishTable h1 hr (hdrop rfl), names_chill ▸ hmem⟩
    rw [htaken] at hfree
    cases hfree

/-- A month whose name is free gets its table. -/
theorem exists_of_finish (hm : m = now ∨ m = now + 1)
    (hfree : c.taken (partitionName t m) = false) : Exists d (partitionName t m) := by
  obtain ⟨-, c1, h1, h2⟩ := finish_some h
  cases t with
  | commsRequest =>
    refine exists_of_finishTable h2 hm ((month_of_finishTable h1 hm).resolve_left fun htaken => ?_)
    rw [htaken] at hfree
    cases hfree
  | commsEvent =>
    refine (month_of_finishTable h2 hm).resolve_left fun htaken => ?_
    obtain ⟨r1, hr1, hmem⟩ := taken_iff.1 htaken
    rcases row_of_finishTable h1 hr1 with ⟨r, hr, -, rfl⟩ | ⟨k, -, hnew, -⟩
    · rw [taken_iff.2 ⟨r, hr, names_chill ▸ hmem⟩] at hfree
      cases hfree
    · exact absurd (hnew.name.symm.trans (hnew.names _ _ hmem)) (partitionName_ne nofun)

end

/-! ## Partitions moved -/

/-- On the way to the cold tablespace only the named table changed, in what the move sets. -/
def Cools (n : String) (c c' : Catalogue) : Prop :=
  ∃ g : Relation → Relation, c'.rows = c.rows.map g ∧ (∀ r, (g r).cool = r.cool) ∧
    ∀ r, r.name ≠ n → g r = r

theorem Cools.refl : Cools n c c :=
  ⟨id, (map_id _).symm, fun _ => rfl, fun _ _ => rfl⟩

theorem Cools.alter {f : Relation → Relation} {hf : ∀ r, (f r).name = r.name}
    (h : Cools n c c') (hcool : ∀ r, (f r).cool = r.cool) : Cools n c (c'.alter n f hf) := by
  obtain ⟨g, hrows, hg, hne⟩ := h
  refine ⟨fun r => if (g r).name = n then f (g r) else g r, ?_, fun r => ?_, fun r hr => ?_⟩
  · show Table.updateRows _ _ c'.rows = _
    rw [hrows, Table.updateRows, List.map_map]
    refine map_congr_left fun r _ => ?_
    simp only [Function.comp, decide_eq_true_eq]
  · dsimp only
    split
    · rw [hcool, hg]
    · exact hg r
  · dsimp only
    rw [hne r hr, if_neg hr]

theorem name_of_cool (h : r'.cool = r.cool) : r'.name = r.name := by
  rw [← r'.name_cool, h, r.name_cool]

theorem parent_of_cool (h : r'.cool = r.cool) : r'.parent = r.parent := by
  have := congrArg Relation.parent h
  exact this

theorem Cools.exists_before (h : Cools n c c') : ∀ r' ∈ c', ∃ r ∈ c, r'.cool = r.cool ∧
    (r'.name ≠ n → r' = r) := by
  obtain ⟨g, hrows, hg, hne⟩ := h
  intro r' hr'
  rw [Table.mem_def, hrows] at hr'
  obtain ⟨r, hr, rfl⟩ := List.mem_map.1 hr'
  exact ⟨r, hr, hg r, fun hn => hne r (name_of_cool (hg r) ▸ hn)⟩

theorem Cools.exists_after (h : Cools n c c') : ∀ r ∈ c, ∃ r' ∈ c', r'.cool = r.cool ∧
    (r.name ≠ n → r' = r) := by
  obtain ⟨g, hrows, hg, hne⟩ := h
  intro r hr
  exact ⟨g r, by rw [Table.mem_def, hrows]; exact mem_map_of_mem hr, hg r, hne r⟩

theorem Cools.exists_iff {m : String} (h : Cools n c c') : Exists c' m ↔ Exists c m := by
  constructor
  · rintro ⟨r', hr', rfl⟩
    obtain ⟨r, hr, hcool, -⟩ := h.exists_before r' hr'
    exact ⟨r, hr, (name_of_cool hcool).symm⟩
  · rintro ⟨r, hr, rfl⟩
    obtain ⟨r', hr', hcool, -⟩ := h.exists_after r hr
    exact ⟨r', hr', name_of_cool hcool⟩

/-- A move that came to its end, or of a partition that is dropped anyway. -/
theorem Settling.cools (h : Settling ix now years t s0 s) (hc : Cools n s s')
    (hdue : ∀ r ∈ s, r.name = n → moveDue now t r = true) (hend : ∀ r ∈ s', r.name = n →
      dropDue now years t r = true ∨ r.cool = r) : Settling ix now years t s0 s' := by
  refine ⟨?_, fun m hm => (h.months m hm).imp_right hc.exists_iff.2,
    fun u m hm hex => hc.exists_iff.2 (h.stays u m hm hex), fun u hu hs r' hr' => ?_⟩
  · rw [h.same]
    obtain ⟨g, hrows, hg, hne⟩ := hc
    have hdrop : ∀ r, dropDue now years t (g r) = dropDue now years t r :=
      fun r => dropDue_congr (name_of_cool (hg r)) (parent_of_cool (hg r))
    refine congrArg some (settle_map hrows (fun r _ => hdrop r) fun r hr hnot => ?_).symm
    by_cases hn : r.name = n
    · have hmem : g r ∈ s' := by rw [Table.mem_def, hrows]; exact mem_map_of_mem hr
      have hcold : (g r).cool = g r :=
        (hend _ hmem ((name_of_cool (hg r)).trans hn)).resolve_left (by simp [hdrop, hnot])
      have hnot : ¬ moveDue now t (g r) = true := by
        rw [← hcold, not_moveDue_cool]
        exact nofun
      rw [chill, chill, if_pos (hdue r hr hn), if_neg hnot, ← hg, hcold]
    · rw [hne r hn]
  · obtain ⟨r, hr, hcool, hsame⟩ := hc.exists_before r' hr'
    by_cases hn : r'.name = n
    · refine not_due_of_parent ?_
      rw [parent_of_cool hcool, (moveDue_true (hdue r hr (name_of_cool hcool ▸ hn))).1]
      exact fun h => hu (Option.some.inj h).symm
    · rw [hsame hn]
      exact h.others u hu hs r hr

/-! ## Partitions dropped -/

theorem Settling.delete (h : Settling ix now years t s0 s)
    (hdue : ∀ r ∈ s, r.name = n → dropDue now years t r = true) :
    Settling ix now years t s0 (s.delete fun r => r.name = n) := by
  -- the table that is dropped is none of a month
  have hex : ∀ u m, m = now ∨ m = now + 1 → Exists s (partitionName u m) →
      Exists (s.delete fun r => r.name = n) (partitionName u m) := by
    rintro u m hm ⟨r, hr, hname⟩
    refine ⟨r, mem_delete.2 ⟨hr, decide_eq_false fun hn => ?_⟩, hname⟩
    exact name_ne_of_dropDue (hdue r hr hn) hm hname
  refine ⟨?_, fun m hm => (h.months m hm).imp_right (hex t m hm),
    fun u m hm h0 => hex u m hm (h.stays u m hm h0),
    fun u hu hs r hr => h.others u hu hs r (mem_delete.1 hr).1⟩
  rw [h.same, settle_delete fun r hr hn => hdue r hr (of_decide_eq_true hn)]

end

end Messgr.Partition
