import Mathlib.Algebra.Order.Ring.Int

/-!
# Local clocks

A time zone is a function from instants to the offset of its clock, and nothing is said about where
the offset changes or by how much: the clock may skip local times and show others twice. `wall` is
the local time that the clock shows, and `earliest` the first instant at which it shows a given one.
Instants and local times are integers of one unit. `Zone.ofTransitions` is the zone of a table of
changes.
-/

/-- A zone, with the instant at which its clock first shows a local time, if it ever does. -/
structure Zone where
  offset : Int → Int
  earliest : Int → Option Int
  earliest_some : ∀ {l u : Int}, earliest l = some u →
    u + offset u = l ∧ ∀ v : Int, v + offset v = l → u ≤ v
  earliest_none : ∀ {l : Int}, earliest l = none → ∀ v : Int, v + offset v ≠ l

namespace Zone

section
variable (z : Zone)

/-- The local time at an instant. -/
def wall (u : Int) : Int := u + z.offset u

/-- From one instant to the next the clock skips at most `g` of local time. -/
def GapsAtMost (g : Int) : Prop := ∀ u : Int, z.wall (u + 1) ≤ z.wall u + 1 + g

end

section
variable {z : Zone} {l u v : Int}

theorem wall_of_earliest (h : z.earliest l = some u) : z.wall u = l := (z.earliest_some h).1

theorem le_of_earliest (h : z.earliest l = some u) (hv : z.wall v = l) : u ≤ v :=
  (z.earliest_some h).2 v hv

/-- A local time that the clock shows is first shown then or before. -/
theorem exists_earliest (hv : z.wall v = l) : ∃ u, z.earliest l = some u ∧ u ≤ v := by
  cases h : z.earliest l with
  | none => exact absurd hv (z.earliest_none h v)
  | some u => exact ⟨u, rfl, le_of_earliest h hv⟩

/-- The first instant of a local time is the one before which it is not shown. -/
theorem earliest_eq_some (hu : z.wall u = l) (hv : ∀ v < u, z.wall v ≠ l) :
    z.earliest l = some u := by
  obtain ⟨v, hearliest, hle⟩ := exists_earliest hu
  rcases lt_or_eq_of_le hle with hlt | rfl
  · exact absurd (wall_of_earliest hearliest) (hv v hlt)
  · exact hearliest

theorem earliest_eq_none (h : ∀ v, z.wall v ≠ l) : z.earliest l = none := by
  cases hearliest : z.earliest l with
  | none => rfl
  | some u => exact absurd (wall_of_earliest hearliest) (h u)

end

/-! ## Tables of changes -/

/-- The offset at an instant, from the offset before the first change and the changes. -/
def offsetAt (o : Int) : List (Int × Int) → Int → Int
  | [], _ => o
  | (t, o') :: ts, u => if u < t then o else offsetAt o' ts u

theorem offsetAt_mem (o : Int) (ts : List (Int × Int)) (u : Int) :
    offsetAt o ts u ∈ o :: ts.map Prod.snd := by
  induction ts generalizing o with
  | nil => exact .head _
  | cons p ts ih =>
    obtain ⟨t, o'⟩ := p
    rw [offsetAt]
    split
    · exact .head _
    · exact .tail _ (ih o')

/-- The instants at which the clock shows a local time: one for each offset that is in force then.
-/
def instants (o : Int) (ts : List (Int × Int)) (l : Int) : List Int :=
  ((o :: ts.map Prod.snd).map (l - ·)).filter fun u => u + offsetAt o ts u = l

theorem mem_instants {o : Int} {ts : List (Int × Int)} {l u : Int} :
    u ∈ instants o ts l ↔ u + offsetAt o ts u = l := by
  rw [instants, List.mem_filter, decide_eq_true_eq]
  refine ⟨And.right, fun h => ⟨List.mem_map.2 ⟨_, offsetAt_mem o ts u, ?_⟩, h⟩⟩
  omega

/-- The zone with the offset `o` before the first change. -/
def ofTransitions (o : Int) (ts : List (Int × Int)) : Zone where
  offset := offsetAt o ts
  earliest l := (instants o ts l).min?
  earliest_some h := by
    obtain ⟨hmem, hle⟩ := List.min?_eq_some_iff.1 h
    exact ⟨mem_instants.1 hmem, fun v hv => hle v (mem_instants.2 hv)⟩
  earliest_none h v hv := by
    have hmem := mem_instants.2 hv
    rw [List.min?_eq_none_iff.1 h] at hmem
    cases hmem

end Zone
