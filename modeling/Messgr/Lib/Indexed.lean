import Mathlib.Logic.Basic

/-!
# Lists whose places are names

A list whose entries are named by their places, as processes by the order in which they were
started: entries are changed in place and appended, never removed. `All P l` says that every entry
has the property `P`, which may depend on its place, and `AtMostOne R l` that no two entries have
the property `R`. `total f l` adds up what `f` counts of each entry.
-/

namespace Indexed

open List

variable {α β : Type*} {P Q : Nat → α → Prop} {l m : List α}

/-- Every entry has the property. -/
def All (P : Nat → α → Prop) (l : List α) : Prop := ∀ i a, l[i]? = some a → P i a

theorem All.nil : All P [] := fun _ _ h => by cases h

theorem All.mono (h : All P l) (hPQ : ∀ i a, P i a → Q i a) : All Q l :=
  fun i a ha => hPQ i a (h i a ha)

/-- Changing one entry. -/
theorem All.set (h : All P l) {n : Nat} {b : α} (hb : P n b) : All P (l.set n b) := by
  intro i a ha
  rw [getElem?_set] at ha
  split at ha
  · next hn =>
    split at ha
    · cases ha
      exact hn ▸ hb
    · cases ha
  · exact h i a ha

/-- Appending entries. -/
theorem All.append (h : All P l) (hm : ∀ i, l.length ≤ i → ∀ a ∈ m, P i a) : All P (l ++ m) := by
  intro i a ha
  rw [getElem?_append] at ha
  split at ha
  · exact h i a ha
  · next hi => exact hm i (Nat.not_lt.1 hi) a (mem_of_getElem? ha)

/-- Changing every entry. -/
theorem All.map {P : Nat → β → Prop} {f : α → β} (h : All (fun i a => P i (f a)) l) :
    All P (l.map f) := by
  intro i b hb
  rw [getElem?_map, Option.map_eq_some_iff] at hb
  obtain ⟨a, ha, rfl⟩ := hb
  exact h i a ha

/-- No two entries have the property. -/
def AtMostOne (R : α → Prop) (l : List α) : Prop :=
  ∀ (i j : Nat) (a b : α), l[i]? = some a → l[j]? = some b → R a → R b → i = j

section
variable {R S : α → Prop}

theorem AtMostOne.nil : AtMostOne R [] := fun _ _ _ _ h => by cases h

theorem AtMostOne.mono (h : AtMostOne R l) (hRS : ∀ a, S a → R a) : AtMostOne S l :=
  fun i j a b ha hb hsa hsb => h i j a b ha hb (hRS a hsa) (hRS b hsb)

/-- Appending entries without the property. -/
theorem AtMostOne.append (h : AtMostOne R l) (hm : ∀ a ∈ m, ¬ R a) : AtMostOne R (l ++ m) := by
  have hold : ∀ {i : Nat} {a : α}, (l ++ m)[i]? = some a → R a → l[i]? = some a := by
    intro i a ha hr
    rw [getElem?_append] at ha
    split at ha
    · exact ha
    · exact absurd hr (hm a (mem_of_getElem? ha))
  exact fun i j a b ha hb hra hrb => h i j a b (hold ha hra) (hold hb hrb) hra hrb

/-- Changing one entry: it had the property before, or no entry had. -/
theorem AtMostOne.set (h : AtMostOne R l) {n : Nat} {a b : α} (hn : l[n]? = some a)
    (hb : R b → R a ∨ ∀ c ∈ l, ¬ R c) : AtMostOne R (l.set n b) := by
  have hold : ∀ {i : Nat} {c : α}, (l.set n b)[i]? = some c → R c →
      (i = n ∧ R b) ∨ l[i]? = some c := by
    intro i c hc hr
    by_cases hi : n = i
    · subst hi
      rw [getElem?_set_self (List.getElem?_eq_some_iff.1 hn).1] at hc
      cases hc
      exact .inl ⟨rfl, hr⟩
    · rw [getElem?_set_ne hi] at hc
      exact .inr hc
  -- the changed entry and one that was not changed
  have hone : ∀ {j : Nat} {c : α}, R b → l[j]? = some c → R c → n = j := by
    intro j c hrb hc hrc
    rcases hb hrb with hra | hnone
    · exact h n j a c hn hc hra hrc
    · exact absurd hrc (hnone c (mem_of_getElem? hc))
  intro i j c d hc hd hrc hrd
  rcases hold hc hrc with ⟨rfl, hrb⟩ | hc' <;> rcases hold hd hrd with ⟨rfl, hrb'⟩ | hd'
  · rfl
  · exact hone hrb hd' hrd
  · exact (hone hrb' hc' hrc).symm
  · exact h i j c d hc' hd' hrc hrd

end

/-- What `f` counts of all entries. -/
def total (f : α → Nat) : List α → Nat
  | [] => 0
  | a :: l => f a + total f l

section
variable {f : α → Nat}

theorem total_append : total f (l ++ m) = total f l + total f m := by
  induction l with
  | nil => exact (Nat.zero_add _).symm
  | cons a l ih => rw [cons_append, total, total, ih, Nat.add_assoc]

/-- Changing one entry. -/
theorem total_set {n : Nat} {a b : α} (hn : l[n]? = some a) :
    total f (l.set n b) + f a = total f l + f b := by
  induction l generalizing n with
  | nil => cases hn
  | cons c l ih =>
    cases n with
    | zero =>
      cases hn
      rw [set_cons_zero, total, total]
      omega
    | succ n =>
      have htail := ih (n := n) hn
      rw [set_cons_succ, total, total]
      omega

theorem total_eq_zero (h : ∀ a ∈ l, f a = 0) : total f l = 0 := by
  induction l with
  | nil => rfl
  | cons a l ih => rw [total, h a (.head _), ih fun b hb => h b (.tail _ hb)]

theorem total_congr {g : α → Nat} (h : ∀ a ∈ l, f a = g a) : total f l = total g l := by
  induction l with
  | nil => rfl
  | cons a l ih => rw [total, total, h a (.head _), ih fun b hb => h b (.tail _ hb)]

/-- The order of the entries does not matter. -/
theorem total_perm (h : l.Perm m) : total f l = total f m := by
  induction h with
  | nil => rfl
  | cons a _ ih => rw [total, total, ih]
  | swap a b l =>
    simp only [total]
    omega
  | trans _ _ ih1 ih2 => exact ih1.trans ih2

/-- What is counted for one class after another is counted once for each class. -/
theorem total_countP {κ : Type*} [DecidableEq κ] {c : α → κ} {d : β → κ} {p : β → Bool}
    {bs : List β} (hl : (l.map c).Nodup) :
    total (fun a => bs.countP fun b => decide (d b = c a) && p b) l =
      bs.countP fun b => decide (d b ∈ l.map c) && p b := by
  induction l with
  | nil => simp [total]
  | cons a l ih =>
    rw [map_cons, nodup_cons] at hl
    rw [total, ih hl.2]
    clear ih
    induction bs with
    | nil => rfl
    | cons b bs ih =>
      simp only [countP_cons]
      have hone : (if (decide (d b = c a) && p b) = true then 1 else 0) +
          (if (decide (d b ∈ l.map c) && p b) = true then 1 else 0) =
          if (decide (d b ∈ (a :: l).map c) && p b) = true then 1 else 0 := by
        by_cases hb : d b = c a
        · simp [hb, hl.1]
        · simp [hb]
      omega

/-- Changing every entry without changing its count. -/
theorem total_map {g : α → α} (h : ∀ a, f (g a) = f a) : total f (l.map g) = total f l := by
  induction l with
  | nil => rfl
  | cons a l ih => rw [map_cons, total, total, h, ih]

end

end Indexed
