import Mathlib.Data.List.Basic

/-!
# Conditions of a query

A condition of a `WHERE` clause has one of three truth values: true, false and `NULL`. A
comparison with a `NULL` is `NULL`, the connectives are Kleene's, and a row is kept exactly when
the condition is true (`Holds`). The lemmas here reduce `Holds` of a compound condition to plain
logic on the values, which is all that a proof about a query needs.
-/

namespace Sql

variable {α : Type*}

/-- A truth value of a condition; `none` is `NULL`. -/
abbrev Truth := Option Bool

/-- A condition keeps a row when it is true: neither false nor `NULL`. -/
def Holds (t : Truth) : Bool := t == some true

/-- `a = b` on nullable values. -/
def eq [DecidableEq α] : Option α → Option α → Truth
  | some a, some b => some (decide (a = b))
  | _, _ => none

/-- `a <= b` on nullable values. -/
def le [LE α] [DecidableLE α] : Option α → Option α → Truth
  | some a, some b => some (decide (a ≤ b))
  | _, _ => none

/-- `a IS NULL`. -/
def isNull (a : Option α) : Truth := some a.isNone

/-- `a <> ALL(array)` for an array without `NULL`s: true on the empty array even when `a` is
`NULL`, `NULL` when `a` is `NULL` and there is something to compare it with. -/
def neAll [DecidableEq α] (a : Option α) : List α → Truth
  | [] => some true
  | x :: xs => a.map fun v => decide (v ∉ x :: xs)

/-- `a AND b`. -/
def and : Truth → Truth → Truth
  | some false, _ | _, some false => some false
  | some true, some true => some true
  | _, _ => none

/-- `a OR b`. -/
def or : Truth → Truth → Truth
  | some true, _ | _, some true => some true
  | some false, some false => some false
  | _, _ => none

@[simp] theorem holds_some (b : Bool) : Holds (some b) = b := by cases b <;> rfl

@[simp] theorem holds_none : Holds none = false := rfl

@[simp] theorem holds_and (a b : Truth) : Holds (and a b) = (Holds a && Holds b) := by
  rcases a with _ | _ | _ <;> rcases b with _ | _ | _ <;> rfl

@[simp] theorem holds_or (a b : Truth) : Holds (or a b) = (Holds a || Holds b) := by
  rcases a with _ | _ | _ <;> rcases b with _ | _ | _ <;> rfl

/-- An equality keeps the rows whose two values are present and equal. -/
@[simp] theorem holds_eq [DecidableEq α] (a b : Option α) :
    Holds (eq a b) = true ↔ a.isSome ∧ a = b := by
  cases a <;> cases b <;> simp [eq]

/-- A comparison keeps the rows whose two values are present and ordered. -/
@[simp] theorem holds_le [LE α] [DecidableLE α] (a b : α) :
    Holds (le (some a) (some b)) = true ↔ a ≤ b := by
  simp [le]

@[simp] theorem holds_isNull (a : Option α) : Holds (isNull a) = a.isNone := by
  simp [isNull]

/-- On a value that is present, `<> ALL` is absence from the array. -/
@[simp] theorem holds_neAll [DecidableEq α] (a : α) (xs : List α) :
    Holds (neAll (some a) xs) = true ↔ a ∉ xs := by
  cases xs <;> simp [neAll]

end Sql
