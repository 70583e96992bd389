import Mathlib.Data.List.Basic
import Mathlib.Logic.Function.Iterate

/-!
# Walks along a partial function

`next` leads from a point to at most one other, as a table of merged records does. `hop next n a` is
where `n` hops from `a` lead, if there are as many; `follow next n a` hops while it can, `n`
times at most. In the other direction a recursive query collects, round by round, the points from
which a point is reached (`withRecursive`), with the number of hops in every row. At a point that
leads nowhere the two agree: `follow_eq_iff`, `mem_rounds`.
-/

namespace Walk

open Nat

section
variable {α : Type*} (next : α → Option α)

/-- Where `n` hops lead. -/
def hop : Nat → α → Option α
  | 0, a => some a
  | n + 1, a => (next a).bind (hop n)

/-- Hops while it can, `n` times at most. -/
def follow : Nat → α → α
  | 0, a => a
  | n + 1, a =>
    match next a with
    | some b => follow n b
    | none => a

end

section
variable {α : Type*} {next : α → Option α} {a c : α} {m n : Nat}

theorem hop_succ : hop next (n + 1) a = some c ↔ ∃ b, next a = some b ∧ hop next n b = some c :=
  Option.bind_eq_some_iff

theorem exists_hop_follow : ∀ (n : Nat) (a : α), ∃ m ≤ n, hop next m a = some (follow next n a)
  | 0, a => ⟨0, Nat.le_refl _, rfl⟩
  | n + 1, a => by
    cases h : next a with
    | none => exact ⟨0, Nat.zero_le _, by rw [follow, h]; rfl⟩
    | some b =>
      obtain ⟨m, hm, hb⟩ := exists_hop_follow n b
      refine ⟨m + 1, succ_le_succ hm, hop_succ.2 ⟨b, h, ?_⟩⟩
      rw [hb, follow, h]

/-- A point that leads nowhere is where the walk ends. -/
theorem follow_of_hop (hc : next c = none) (hm : m ≤ n) (h : hop next m a = some c) :
    follow next n a = c := by
  induction n generalizing a m with
  | zero =>
    cases le_zero.1 hm
    exact Option.some.inj h
  | succ n ih =>
    cases m with
    | zero =>
      cases Option.some.inj h
      rw [follow, hc]
    | succ m =>
      obtain ⟨b, hb, h⟩ := hop_succ.1 h
      rw [follow, hb]
      exact ih (le_of_succ_le_succ hm) h

theorem follow_eq_iff (hc : next c = none) :
    follow next n a = c ↔ ∃ m ≤ n, hop next m a = some c := by
  constructor
  · rintro rfl
    exact exists_hop_follow n a
  · exact fun ⟨m, hm, h⟩ => follow_of_hop hc hm h

end

/-! ## The rounds of a recursive query -/

section
variable {β : Type*}

/-- `WITH RECURSIVE`, with `UNION ALL`: the rows of a round and those of the next rounds, of which
each is the recursive term on the rows of the round before. -/
def withRecursive (term : List β → List β) : Nat → List β → List β
  | 0, working => working
  | n + 1, working => working ++ withRecursive term n (term working)

/-- The rows are those of all rounds. -/
theorem mem_withRecursive {term : List β → List β} {b : β} {n : Nat} {working : List β} :
    b ∈ withRecursive term n working ↔ ∃ k ≤ n, b ∈ term^[k] working := by
  induction n generalizing working with
  | zero =>
    refine ⟨fun h => ⟨0, Nat.le_refl _, h⟩, ?_⟩
    rintro ⟨k, hk, h⟩
    cases le_zero.1 hk
    exact h
  | succ n ih =>
    rw [withRecursive, List.mem_append, ih]
    constructor
    · rintro (h | ⟨k, hk, h⟩)
      · exact ⟨0, zero_le _, h⟩
      · exact ⟨k + 1, succ_le_succ hk, h⟩
    · rintro ⟨k, hk, h⟩
      cases k with
      | zero => exact .inl h
      | succ k => exact .inr ⟨k, le_of_succ_le_succ hk, h⟩

end

section
variable {α : Type*} {next : α → Option α} {c : α} {limit : Nat}
  {term : List (α × Nat) → List (α × Nat)}

/-- Round `k` of a query that hops back from every row of fewer than `limit` hops has the points
from which `k` hops lead to its start. -/
theorem mem_rounds (hterm : ∀ working b d, (b, d) ∈ term working ↔
      ∃ a e, (a, e) ∈ working ∧ e < limit ∧ d = e + 1 ∧ next b = some a)
    {k d : Nat} {b : α} :
    (b, d) ∈ term^[k] [(c, 0)] ↔ d = k ∧ k ≤ limit ∧ hop next k b = some c := by
  induction k generalizing b d with
  | zero =>
    simp only [Function.iterate_zero, id_eq, List.mem_singleton, Prod.mk.injEq, zero_le,
      true_and, hop, Option.some.injEq, and_comm]
  | succ k ih =>
    rw [Function.iterate_succ_apply', hterm]
    constructor
    · rintro ⟨a, e, ha, he, rfl, hb⟩
      obtain ⟨rfl, _, ha⟩ := ih.1 ha
      exact ⟨rfl, he, hop_succ.2 ⟨a, hb, ha⟩⟩
    · rintro ⟨rfl, hk, h⟩
      obtain ⟨a, hb, ha⟩ := hop_succ.1 h
      exact ⟨a, k, ih.2 ⟨rfl, le_of_succ_le hk, ha⟩, hk, rfl, hb⟩

end

end Walk
