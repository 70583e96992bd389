import Messgr.Lib.Calendar
import Messgr.Lib.Interrupt
import Messgr.Lib.Table
import Messgr.Partition.Names

/-!
# The partition lifecycle

The monthly partitions of `comms_request` and `comms_event`: created ahead, moved to a slower
tablespace after 18 months, detached and dropped past the tenant's retention
(`src/partition_lifecycle/lifecycle.rs`, `run`). The catalogue of the tenant database is a table of
relations by name (`Catalogue`); every statement of a run commits on its own (`exec`), and what it
answers decides which ones follow (`run`).

The name of a partition is parsed as its month, and only for its own table (`parse_partitionName`,
`parse_of_ne`): what a run creates is never what it moves or drops.
-/

namespace Messgr.Partition

/-- Source: `PARTITIONED_TABLES`. -/
inductive PartitionedTable
  | commsRequest
  | commsEvent
deriving DecidableEq

def PartitionedTable.text : PartitionedTable → String
  | .commsRequest => "comms_request"
  | .commsEvent => "comms_event"

def partitionedTables : List PartitionedTable := [.commsRequest, .commsEvent]

/-- Source: `COLD_TABLESPACE`. -/
def coldTablespace : String := "messgr_cold"

/-- Source: `MOVE_AFTER_MONTHS`. -/
def moveAfterMonths : Nat := 18

/-! ## Months and instants -/

/-- The instant at which a month begins, in UTC. -/
def startOf (month : Int) : Time := Calendar.firstDay month * day

/-- Source: `month_start`, of the date of an instant. -/
def monthStart (t : Time) : Int := Calendar.monthOf (t / day)

/-- The years of `chrono` are -262143 to 262142. -/
def inRange (month : Int) : Bool := -3145716 ≤ month && month ≤ 3145715

theorem inRange_iff {month : Int} : inRange month = true ↔ -3145716 ≤ month ∧ month ≤ 3145715 := by
  simp [inRange]

/-- Source: `add_months`; `none` is a panic. -/
def addMonths (date : Int) (months : Nat) : Option Int :=
  if inRange (date + months) then some (date + months) else none

/-- Source: `subtract_months`; `none` is a panic. -/
def subtractMonths (date : Int) (months : Nat) : Option Int :=
  if inRange (date - months) then some (date - months) else none

/-- `(config.retention_years as u32) * 12`, which wraps around in a release build. -/
def retentionMonths (retentionYears : Int) : Nat :=
  (retentionYears % 4294967296).toNat * 12 % 4294967296

/-! ## Names -/

/-- The name of a partition of one of the tables. -/
def partitionName (parentTable : PartitionedTable) (monthStart : Int) : String :=
  Repo.partitionName parentTable.text monthStart

/-- The month of such a name. -/
def parsePartitionMonth (parentTable : PartitionedTable) (relname : String) : Option Int :=
  Repo.parsePartitionMonth parentTable.text relname

/-! ## The catalogue -/

structure Index where
  name : String
  tablespace : Option String
deriving DecidableEq

/-- The bounds of a partition: `FOR VALUES FROM (lower) TO (upper)`, where `none` is `MINVALUE` or
`MAXVALUE`, or `DEFAULT`, with the months of which it has rows. -/
inductive Bounds
  | range (lower upper : Option Time)
  | default (holds : Int → Bool)

/-- The bounds that `create_partition` writes for a month. -/
def Bounds.month (monthStart : Int) : Bounds :=
  .range (some (startOf monthStart)) (some (startOf (monthStart + 1)))

/-- A new partition of the month cannot stand beside one with these bounds. -/
def Bounds.meets : Bounds → Int → Bool
  | .range lower upper, month =>
    lower.all (· < startOf (month + 1)) && upper.all (startOf month < ·)
  | .default holds, month => holds month

/-- A row with this `created_at` or `occurred_at` is within the range. -/
def Bounds.contains : Bounds → Time → Bool
  | .range lower upper, t => lower.all (· ≤ t) && upper.all (t < ·)
  | .default _, _ => false

/-- A table of the catalogue: the partitioned table it is attached to, its bounds, the tablespace
(`none` is the default one) and the indexes. -/
structure Relation where
  name : String
  parent : Option PartitionedTable
  bounds : Bounds
  tablespace : Option String
  indexes : List Index

abbrev Catalogue := Table Relation Relation.name

/-- The names that a table takes: its own one and those of its indexes. -/
def Relation.names (r : Relation) : List String := r.name :: r.indexes.map Index.name

/-- A table or an index has the name: both are found by `to_regclass` and refused by `CREATE`. -/
def Catalogue.taken (c : Catalogue) (name : String) : Bool := c.rows.any (name ∈ ·.names)

/-- The rows of the query of `list_partitions`, in the order of the catalogue. -/
def Catalogue.attached (c : Catalogue) (table : PartitionedTable) :
    List (String × Option String) :=
  (c.rows.filter fun r => r.parent = some table).map fun r => (r.name, r.tablespace)

/-- The names of the indexes of a table. -/
def Catalogue.indexNames (c : Catalogue) (name : String) : List String :=
  ((c.find? name).map fun r => r.indexes.map Index.name).getD []

/-- An index that is set to the cold tablespace. -/
def Index.cool (i : Index) : Index := { i with tablespace := some coldTablespace }

def Relation.coolTable (r : Relation) : Relation := { r with tablespace := some coldTablespace }

def Relation.coolIndex (index : String) (r : Relation) : Relation :=
  { r with indexes := r.indexes.map fun i => if i.name = index then i.cool else i }

def Relation.detach (r : Relation) : Relation := { r with parent := none }

theorem Relation.name_coolTable (r : Relation) : r.coolTable.name = r.name := rfl

theorem Relation.name_coolIndex (index : String) (r : Relation) :
    (r.coolIndex index).name = r.name := rfl

theorem Relation.name_detach (r : Relation) : r.detach.name = r.name := rfl

/-- Changes the relation of a name. -/
def Catalogue.alter (c : Catalogue) (name : String) (f : Relation → Relation)
    (hf : ∀ r, (f r).name = r.name) : Catalogue :=
  c.update (fun r => r.name = name) f hf

/-- The statements of a run. The name of an index is one of its schema, so the table and the name
say which index is meant. -/
inductive Stmt
  | partitionExists (name : String)
  | createPartition (table : PartitionedTable) (monthStart : Int)
  | listPartitions (table : PartitionedTable)
  | setTablespace (name : String)
  | indexNames (name : String)
  | setIndexTablespace (name index : String)
  | detachPartition (table : PartitionedTable) (name : String)
  | dropTable (name : String)
deriving DecidableEq

@[reducible] def Stmt.Answer : Stmt → Type
  | .partitionExists _ => Bool
  | .listPartitions _ => List (String × Option String)
  | .indexNames _ => List String
  | _ => Unit

/-- The indexes that a new partition gets with those of its parent, under names that PostgreSQL
makes. They end in `_pkey`, `_key` or `_idx`, perhaps with a number, and so are none of a partition.
-/
structure NewIndexes where
  of : Catalogue → PartitionedTable → Int → List Index
  name_ne : ∀ c t m, ∀ i ∈ of c t m, ∀ u k, i.name ≠ partitionName u k

def NewIndexes.none : NewIndexes := ⟨fun _ _ _ => [], fun _ _ _ _ h => nomatch h⟩

section
variable (ix : NewIndexes)

/-- `CREATE TABLE .. PARTITION OF`: refused when the name is taken or an attached partition overlaps
the month. -/
def Catalogue.createPartition (c : Catalogue) (table : PartitionedTable) (monthStart : Int) :
    Option Catalogue :=
  if c.taken (partitionName table monthStart) ||
      c.rows.any fun r => r.parent = some table && r.bounds.meets monthStart then none
  else c.insert?
    { name := partitionName table monthStart, parent := some table, bounds := .month monthStart,
      tablespace := none, indexes := ix.of c table monthStart }

/-- The catalogue after a statement with the given answer, if that is a possible answer. A list of
names comes in any order. -/
def exec : (q : Stmt) → q.Answer → Catalogue → Option Catalogue
  | .partitionExists name, found, c =>
    if found = c.taken name then some c else none
  | .createPartition table monthStart, _, c => c.createPartition ix table monthStart
  | .listPartitions table, rows, c => if List.Perm rows (c.attached table) then some c else none
  | .setTablespace name, _, c =>
    if (c.find? name).isSome then some (c.alter name .coolTable Relation.name_coolTable)
    else none
  | .indexNames name, names, c => if List.Perm names (c.indexNames name) then some c else none
  | .setIndexTablespace name index, _, c =>
    if index ∈ c.indexNames name then
      some (c.alter name (.coolIndex index) (Relation.name_coolIndex index))
    else none
  | .detachPartition table name, _, c =>
    if (c.find? name).any fun r => r.parent = some table then
      some (c.alter name .detach Relation.name_detach)
    else none
  | .dropTable name, _, c =>
    if (c.find? name).isSome then some (c.delete fun r => r.name = name) else none

end

/-! ## The run -/

/-- An `expect` on a date that is not met. -/
inductive Panic
  | dateOutOfRange
deriving DecidableEq

abbrev Action (α : Type) := Prog Stmt.Answer Panic α

/-- A statement and its answer. -/
abbrev ask (q : Stmt) : Action q.Answer := Prog.stmt q

/-- Source: `src/partition_lifecycle/model.rs`. -/
structure PartitionInfo where
  name : String
  monthStart : Int
  tablespace : Option String
deriving DecidableEq

/-- Source: `LifecycleReport`. -/
structure LifecycleReport where
  created : List String := []
  moved : List String := []
  dropped : List String := []
  retentionSkipped : Bool := false
deriving DecidableEq

/-- What two tables add to the report. -/
def LifecycleReport.append (a b : LifecycleReport) : LifecycleReport :=
  ⟨a.created ++ b.created, a.moved ++ b.moved, a.dropped ++ b.dropped,
    a.retentionSkipped || b.retentionSkipped⟩

def expect : Option Int → Action Int
  | some date => pure date
  | none => .fail .dateOutOfRange

/-- Source: `partition_exists`. -/
def partitionExists (name : String) : Action Bool := ask (.partitionExists name)

/-- Source: `create_partition`. -/
def createPartition (table : PartitionedTable) (monthStart : Int) : Action Unit := do
  let _ ← expect (addMonths monthStart 1)
  ask (.createPartition table monthStart)

/-- A row of the query whose name is that of a partition. -/
def partitionInfo (table : PartitionedTable) (row : String × Option String) :
    Option PartitionInfo :=
  (parsePartitionMonth table row.1).map (⟨row.1, ·, row.2⟩)

/-- Source: `list_partitions`. -/
def listPartitions (table : PartitionedTable) : Action (List PartitionInfo) := do
  let rows ← ask (.listPartitions table)
  pure (rows.filterMap (partitionInfo table))

/-- Source: `move_to_tablespace`. -/
def moveToTablespace (name : String) : Action Unit := do
  ask (.setTablespace name)
  let indexNames ← ask (.indexNames name)
  let _ ← Prog.collect (fun index => do
    ask (.setIndexTablespace name index)
    pure (none : Option Unit)) indexNames
  pure ()

/-- Source: `detach_and_drop`. -/
def detachAndDrop (table : PartitionedTable) (name : String) : Action Unit := do
  ask (.detachPartition table name)
  ask (.dropTable name)

/-- One month of the first loop of `run`. -/
def createAhead (table : PartitionedTable) (month : Int) : Action (Option String) := do
  let found ← partitionExists (partitionName table month)
  if found then pure none
  else do
    createPartition table month
    pure (some (partitionName table month))

/-- One partition of the second loop of `run`. -/
def moveOld (moveBoundary : Int) (partition : PartitionInfo) : Action (Option String) := do
  let partitionEnd ← expect (addMonths partition.monthStart 1)
  if partitionEnd ≤ moveBoundary ∧ partition.tablespace ≠ some coldTablespace then do
    moveToTablespace partition.name
    pure (some partition.name)
  else pure none

/-- One partition of the third loop of `run`. -/
def dropOld (table : PartitionedTable) (dropBoundary : Int) (partition : PartitionInfo) :
    Action (Option String) := do
  let partitionEnd ← expect (addMonths partition.monthStart 1)
  if partitionEnd ≤ dropBoundary then do
    detachAndDrop table partition.name
    pure (some partition.name)
  else pure none

/-- The body of the loop of `run` over the tables. -/
def runTable (currentMonth nextMonth moveBoundary : Int) (retentionYears : Option Int)
    (table : PartitionedTable) : Action (Option LifecycleReport) := do
  let created ← Prog.collect (createAhead table) [currentMonth, nextMonth]
  let partitions ← listPartitions table
  let moved ← Prog.collect (moveOld moveBoundary) partitions
  match retentionYears with
  | some years => do
    let dropBoundary ← expect (subtractMonths currentMonth (retentionMonths years))
    let dropped ← Prog.collect (dropOld table dropBoundary) partitions
    pure (some ⟨created, moved, dropped, false⟩)
  | none => pure (some ⟨created, moved, [], true⟩)

/-- Source: `lifecycle.rs`, `run`, in the month of `as_of` and with the
`retention_years` of the tenant's configuration, if it has one. -/
def run (currentMonth : Int) (retentionYears : Option Int) : Action LifecycleReport := do
  let nextMonth ← expect (addMonths currentMonth 1)
  let moveBoundary ← expect (subtractMonths currentMonth moveAfterMonths)
  let reports ← Prog.collect (runTable currentMonth nextMonth moveBoundary retentionYears)
    partitionedTables
  pure (reports.foldl .append {})

/-! ## Names and months -/

variable {m m' n : Int}

theorem startOf_lt_iff : startOf m < startOf n ↔ m < n := by
  have hday : ∀ a b : Int, a * day < b * day ↔ a < b := by
    intro a b
    simp only [day]
    omega
  exact (hday _ _).trans Calendar.firstDay_lt_iff

theorem startOf_le_iff : startOf m ≤ startOf n ↔ m ≤ n := by
  rw [← Int.not_lt, startOf_lt_iff, Int.not_lt]

/-- An instant is in the month of its date. -/
theorem monthStart_spec (t : Time) :
    startOf (monthStart t) ≤ t ∧ t < startOf (monthStart t + 1) := by
  obtain ⟨hle, hlt⟩ := Calendar.monthOf_spec (t / day)
  have hday : (0 : Int) < day := by decide
  constructor
  · exact (Int.le_ediv_iff_mul_le hday).1 hle
  · exact (Int.ediv_lt_iff_lt_mul hday).1 hlt

theorem monthStart_mono {t u : Time} (h : t ≤ u) : monthStart t ≤ monthStart u :=
  Calendar.monthOf_mono (Int.ediv_le_ediv (by decide) h)

/-- A name that `partition_name` makes is parsed as its month, if it is parsed. -/
theorem parse_partitionName {t : PartitionedTable}
    (h : parsePartitionMonth t (partitionName t m) = some m') : m' = m :=
  partitionName_injective (partitionName_of_parsed h).symm

/-- The names of the partitions of two tables are different. -/
theorem partitionName_ne {t u : PartitionedTable} (hne : u ≠ t) :
    partitionName u m ≠ partitionName t m' := by
  intro h
  have h6 := congrArg (·.toList[6]?) h
  cases t with
  | commsRequest =>
    cases u with
    | commsRequest => exact hne rfl
    | commsEvent => simp [partitionName, Repo.partitionName, PartitionedTable.text] at h6
  | commsEvent =>
    cases u with
    | commsRequest => simp [partitionName, Repo.partitionName, PartitionedTable.text] at h6
    | commsEvent => exact hne rfl

/-- The names of the partitions of one table are not parsed for the other one. -/
theorem parse_of_ne {t u : PartitionedTable} (hne : u ≠ t) :
    parsePartitionMonth t (partitionName u m) ≠ some m' :=
  fun h => partitionName_ne hne (partitionName_of_parsed h)

/-- The month after that of a parsed name is a date. -/
theorem addMonths_parsed {t : PartitionedTable} {name : String}
    (h : parsePartitionMonth t name = some m) : addMonths m 1 = some (m + 1) := by
  have hm := range_of_parsed h
  exact if_pos (inRange_iff.2 (by omega))

end Messgr.Partition
