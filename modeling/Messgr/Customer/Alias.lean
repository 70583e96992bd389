import Mathlib.Data.List.Dedup
import Messgr.Customer.Resolve
import Messgr.Lib.Walk

/-!
# The aliases of a customer

A customer that was merged into another one has a row of `customer_alias`; the rows may form long
chains or cycles. `expandAlias` follows them from an id (`answered_expandAlias`), `aliasSet`
collects the ids that lead to one (`exists_answered_aliasSet`), and both stop after the same number
of hops.
-/

namespace Messgr.Ingest

open List

namespace Program

/-- The recursive term of the query. Source: `src/customer/repo.rs`, `alias_set`. -/
def joinAliases (aliases : List CustomerAlias) (limit : Nat) (working : List (Uuid × Nat)) :
    List (Uuid × Nat) :=
  aliases.flatMap fun ca =>
    (working.filter fun a => ca.customerId = a.1 && decide (a.2 < limit)).map fun a =>
      (ca.oldCustomerId, a.2 + 1)

/-- The ids that lead to one. No rows are left after the last round (`joinAliases_ended`). Source:
`repo.rs`. -/
def aliasSet (canonicalId : Uuid) : Program (List Uuid) :=
  select fun rows =>
    ((Walk.withRecursive (joinAliases (rows.filterMap Row.alias?) aliasHopLimit) aliasHopLimit
      [(canonicalId, 0)]).map (·.1)).dedup

end Program

section
variable [KeyStore] [UuidCrate]

/-- What a statement answers while the database stays as it is. -/
def answer (settings : Settings) (db : Db) (c : Stmt) : Option (Except CallError c.Answer) :=
  (exec settings 0 () { Shared.empty with db := db } c .done).map (·.2)

end

/-- The id that a customer was merged into. -/
def aliasOf (db : Db) (id : Uuid) : Option Uuid :=
  (((db.visible none).filterMap Row.alias?).find? (·.oldCustomerId = id)).map (·.customerId)

section
variable {db : Db} {x y : Uuid}

/-- The rows of a table are those of its constructor that are committed. -/
theorem mem_table {α : Type} {table : Row → Option α} {mk : α → Row}
    (htable : ∀ row a, table row = some a ↔ row = mk a) {a : α} :
    a ∈ (db.visible none).filterMap table ↔ db.Committed (mk a) := by
  simp only [mem_filterMap, htable, ← Tx.Store.mem_visible_none]
  exact ⟨fun ⟨_, hrow, h⟩ => h ▸ hrow, fun h => ⟨_, h, rfl⟩⟩

/-- A query for a unique key finds the row that has it. -/
theorem find?_table {α : Type} {table : Row → Option α} {mk : α → Row}
    (htable : ∀ row a, table row = some a ↔ row = mk a) {p : α → Bool} {k : Key} {a : α}
    (ha : db.Committed (mk a)) (hp : p a = true) (hk : ∀ b, p b = true → k ∈ (mk b).keys) :
    ((db.visible none).filterMap table).find? p = some a := by
  cases h : ((db.visible none).filterMap table).find? p with
  | none => exact absurd hp (find?_eq_none.1 h a ((mem_table htable).2 ha))
  | some b =>
    have hb := (mem_table htable).1 (mem_of_find?_eq_some h)
    have hrow := ha.eq_of_key hb (hk a hp) (hk b (find?_some h))
    exact congrArg some (Option.some.inj
      (((htable (mk b) b).2 rfl).symm.trans (hrow ▸ (htable (mk a) a).2 rfl)))

theorem mem_aliases {r : CustomerAlias} :
    r ∈ (db.visible none).filterMap Row.alias? ↔ db.Committed (.alias r) :=
  mem_table Row.alias?_eq_some

/-- An id has one alias at most. -/
theorem aliasOf_eq_some : aliasOf db x = some y ↔
    ∃ r, db.Committed (.alias r) ∧ r.oldCustomerId = x ∧ r.customerId = y := by
  constructor
  · intro h
    obtain ⟨r, hr, rfl⟩ := Option.map_eq_some_iff.1 h
    exact ⟨r, mem_aliases.1 (mem_of_find?_eq_some hr), of_decide_eq_true (find?_some hr :), rfl⟩
  · rintro ⟨r, hr, rfl, rfl⟩
    have hkey : ∀ b : CustomerAlias, decide (b.oldCustomerId = r.oldCustomerId) = true →
        Key.alias r.oldCustomerId ∈ (Row.alias b).keys := fun b hb =>
      mem_singleton.2 (congrArg Key.alias (of_decide_eq_true hb).symm)
    rw [aliasOf, find?_table Row.alias?_eq_some hr (decide_eq_true rfl) hkey]
    rfl

theorem aliasOf_eq_none : aliasOf db x = none ↔
    ∀ r, db.Committed (.alias r) → r.oldCustomerId ≠ x := by
  constructor
  · intro h r hr hx
    rw [aliasOf_eq_some.2 ⟨r, hr, hx, rfl⟩] at h
    cases h
  · intro h
    cases ha : aliasOf db x with
    | none => rfl
    | some y =>
      obtain ⟨r, hr, hx, _⟩ := aliasOf_eq_some.1 ha
      exact absurd hx (h r hr)

/-- The recursive term hops back. -/
theorem mem_joinAliases {limit : Nat} (working : List (Uuid × Nat)) (b : Uuid) (d : Nat) :
    (b, d) ∈ Program.joinAliases ((db.visible none).filterMap Row.alias?) limit working ↔
      ∃ a e, (a, e) ∈ working ∧ e < limit ∧ d = e + 1 ∧ aliasOf db b = some a := by
  simp only [Program.joinAliases, mem_flatMap, mem_map, mem_filter,
    Bool.and_eq_true, decide_eq_true_eq, Prod.mk.injEq, mem_aliases, aliasOf_eq_some]
  constructor
  · rintro ⟨ca, hca, ⟨a, e⟩, ⟨ha, rfl, he⟩, rfl, rfl⟩
    exact ⟨ca.customerId, e, ha, he, rfl, ca, hca, rfl, rfl⟩
  · rintro ⟨a, e, ha, he, rfl, ca, hca, rfl, rfl⟩
    exact ⟨ca, hca, (ca.customerId, e), ⟨ha, rfl, he⟩, rfl, rfl⟩

/-- The query ends with the round after the last hop. -/
theorem joinAliases_ended (limit : Nat) (c : Uuid) :
    (Program.joinAliases ((db.visible none).filterMap Row.alias?) limit)^[limit + 1] [(c, 0)] =
      [] := by
  refine eq_nil_iff_forall_not_mem.2 fun ⟨b, d⟩ hb => ?_
  exact Nat.not_succ_le_self limit ((Walk.mem_rounds mem_joinAliases).1 hb).2.1

end

section
variable [KeyStore] [UuidCrate] {settings : Settings} {db : Db} {x c : Uuid} {hops : Nat}

@[simp] theorem answered_select {β : Type} {query : List Row → β} :
    (Program.select query).answered (answer settings db) = some (.ok (query (db.visible none))) :=
  Prog.answered_stmt (Stmt.select false query)

theorem answered_expandAlias : (Program.expandAlias hops x).answered (answer settings db) =
    some (.ok (Walk.follow (aliasOf db) hops x)) := by
  induction hops generalizing x with
  | zero => rfl
  | succ hops ih =>
    rw [Program.expandAlias, Prog.answered_bind, Program.fetchOptional, answered_select,
      Walk.follow, aliasOf]
    cases ((db.visible none).filterMap Row.alias?).find? (·.oldCustomerId = x) with
    | none => rfl
    | some r => exact ih

/-- The ids that lead to one in as many hops as are followed, or fewer. -/
theorem exists_answered_aliasSet : ∃ ids,
    (Program.aliasSet c).answered (answer settings db) = some (.ok ids) ∧
      ∀ x, x ∈ ids ↔ ∃ n ≤ Program.aliasHopLimit, Walk.hop (aliasOf db) n x = some c := by
  refine ⟨_, answered_select, fun x => ?_⟩
  rw [mem_dedup, mem_map]
  constructor
  · rintro ⟨⟨b, d⟩, hb, rfl⟩
    obtain ⟨k, hk, hb⟩ := Walk.mem_withRecursive.1 hb
    exact ⟨k, hk, ((Walk.mem_rounds mem_joinAliases).1 hb).2.2⟩
  · rintro ⟨n, hn, h⟩
    exact ⟨(x, n), Walk.mem_withRecursive.2
      ⟨n, hn, (Walk.mem_rounds mem_joinAliases).2 ⟨rfl, hn, h⟩⟩, rfl⟩

/-- The set of an id that is not merged has the ids that are expanded to it. -/
theorem mem_aliasSet_iff (hc : aliasOf db c = none) :
    (∃ n ≤ Program.aliasHopLimit, Walk.hop (aliasOf db) n x = some c) ↔
      (Program.expandAlias Program.aliasHopLimit x).answered (answer settings db) =
        some (.ok c) := by
  rw [answered_expandAlias, ← Walk.follow_eq_iff hc, Option.some.injEq, Except.ok.injEq]

end

end Messgr.Ingest
