import Mathlib.Data.Int.Basic

/-!
# Events at a pace

A list of events in the order of their times, any two of them at least a gap apart. Whatever
interval one looks at, it holds no more events than fit there at the pace (`Spaced.length_le`), and
no more than so many times the most that one event brings (`Spaced.length_flatMap_le`).
-/

namespace Pace

open List Nat

variable {α β : Type*} {gap start len : Int} {time : α → Int} {l : List α}

/-- Any two events are a gap apart. -/
def Spaced (gap : Int) (time : α → Int) (l : List α) : Prop :=
  l.Pairwise fun a b => time a + gap ≤ time b

theorem Spaced.nil : Spaced gap time [] := Pairwise.nil

theorem Spaced.filter (h : Spaced gap time l) (p : α → Bool) : Spaced gap time (l.filter p) :=
  Pairwise.filter p h

/-- One more event, a gap after the others. -/
theorem Spaced.snoc (h : Spaced gap time l) {a : α} (ha : ∀ b ∈ l, time b + gap ≤ time a) :
    Spaced gap time (l ++ [a]) :=
  pairwise_append.2 ⟨h, pairwise_singleton _ _, fun b hb _ hc =>
    mem_singleton.1 hc ▸ ha b hb⟩

/-- The events of an interval are no more than the gaps in it and one. -/
theorem Spaced.length_le (hgap : 0 < gap) (h : Spaced gap time l)
    (hin : ∀ a ∈ l, start ≤ time a ∧ time a ≤ start + len) : l.length ≤ (len / gap).toNat + 1 := by
  induction l generalizing start len with
  | nil => exact zero_le _
  | cons a l ih =>
    obtain ⟨hfirst, hrest⟩ := pairwise_cons.1 h
    have ha := hin a (.head _)
    -- the others are in the interval from one gap later on
    have hl : l.length ≤ ((len - gap) / gap).toNat + 1 := by
      refine @ih (start + gap) _ hrest fun b hb => ?_
      have hb1 := hfirst b hb
      have hb2 := (hin b (.tail _ hb)).2
      omega
    cases l with
    | nil => exact succ_le_succ (zero_le _)
    | cons b l =>
      have hb1 := hfirst b (.head _)
      have hb2 := (hin b (.tail _ (.head _))).2
      have hone : 1 ≤ len / gap := by
        rw [Int.le_ediv_iff_mul_le hgap]
        omega
      have hstep : (len - gap) / gap = len / gap - 1 := by
        have := Int.add_mul_ediv_right len (-1) (Int.ne_of_gt hgap)
        rwa [Int.neg_one_mul, ← Int.sub_eq_add_neg, ← Int.sub_eq_add_neg] at this
      rw [hstep] at hl
      rw [length_cons]
      omega

/-- What the events of an interval bring, when none brings more than `n`. -/
theorem Spaced.length_flatMap_le (hgap : 0 < gap) (h : Spaced gap time l)
    (hin : ∀ a ∈ l, start ≤ time a ∧ time a ≤ start + len) {f : α → List β} {n : Nat}
    (hn : ∀ a ∈ l, (f a).length ≤ n) : (l.flatMap f).length ≤ n * ((len / gap).toNat + 1) := by
  have hall : (l.flatMap f).length ≤ n * l.length := by
    clear h hin
    induction l with
    | nil => exact le_refl _
    | cons a l ih =>
      have ha := hn a (.head _)
      have hl := ih fun b hb => hn b (.tail _ hb)
      rw [flatMap_cons, length_append, length_cons, mul_succ]
      omega
  exact le_trans hall (mul_le_mul_left n (h.length_le hgap hin))

end Pace
