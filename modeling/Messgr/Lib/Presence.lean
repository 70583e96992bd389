import Mathlib.Data.List.Nodup
import Mathlib.Data.Set.Basic

/-!
# Observing a changing set

An observer looks at a set of members again and again and reports, each time, which members arrived
since the last look and which ones left. `Observed Ts l` says that `l` is the observer's log after
the looks `Ts`. When a member that left never comes back (`NeverBack`), the log is exact: it has
every member at most once either way, and the members present are those that arrived and have not
left (`Observed.exact`).
-/

namespace Presence

open List

variable {ι : Type*}

/-- What the observer last saw, and all it has reported, in order. -/
structure Log (ι : Type*) where
  present : Set ι
  arrived : List ι
  left : List ι

/-- The log before the first look. -/
def Log.start : Log ι := ⟨∅, [], []⟩

/-- The reports `a` and `d` of a look at `T`: what is new in `T`, and what is gone. -/
structure Delta (S T : Set ι) (a d : List ι) : Prop where
  nodup_arrived : a.Nodup
  nodup_left : d.Nodup
  mem_arrived : ∀ i, i ∈ a ↔ i ∈ T ∧ i ∉ S
  mem_left : ∀ i, i ∈ d ↔ i ∈ S ∧ i ∉ T

/-- A look at the same set reports nothing. -/
theorem Delta.self {S : Set ι} {a d : List ι} (h : Delta S S a d) : a = [] ∧ d = [] := by
  constructor <;> refine eq_nil_iff_forall_not_mem.2 fun i hi => ?_
  · exact ((h.mem_arrived i).1 hi).2 ((h.mem_arrived i).1 hi).1
  · exact ((h.mem_left i).1 hi).2 ((h.mem_left i).1 hi).1

/-- The log after a sequence of looks. -/
inductive Observed : List (Set ι) → Log ι → Prop
  | start : Observed [] .start
  | next {Ts : List (Set ι)} {l : Log ι} {T : Set ι} {a d : List ι} :
      Observed Ts l → Delta l.present T a d →
      Observed (Ts ++ [T]) ⟨T, l.arrived ++ a, l.left ++ d⟩

/-- Once seen, the member is seen at every later look. -/
def Stays (Ts : List (Set ι)) (i : ι) : Prop := Ts.Pairwise fun S T => i ∈ S → i ∈ T

/-- A member that is seen was seen at every look since the first one that saw it. -/
def NeverBack (Ts : List (Set ι)) : Prop :=
  ∀ pre T post, Ts = pre ++ T :: post → ∀ i ∈ T, Stays pre i

/-- The assumption on a sequence of looks is one on its beginnings. -/
theorem NeverBack.of_append {Ts Us : List (Set ι)} (h : NeverBack (Ts ++ Us)) : NeverBack Ts := by
  intro pre T post hTs
  exact h pre T (post ++ Us) (by rw [hTs, append_assoc, cons_append])

/-- A log that reports each member at most once either way, and none as left that did not arrive:
present are those that arrived and have not left. -/
structure Exact (l : Log ι) : Prop where
  nodup_arrived : l.arrived.Nodup
  nodup_left : l.left.Nodup
  arrived_of_left : ∀ i ∈ l.left, i ∈ l.arrived
  mem_present : ∀ i, i ∈ l.present ↔ i ∈ l.arrived ∧ i ∉ l.left

section
variable {Ts : List (Set ι)} {l : Log ι} {i : ι}

/-- What is present was in the last look. -/
theorem Observed.last (h : Observed Ts l) (hi : i ∈ l.present) :
    ∃ pre, Ts = pre ++ [l.present] := by
  cases h with
  | start => exact absurd hi (Set.notMem_empty i)
  | next => exact ⟨_, rfl⟩

/-- What arrived was seen. -/
theorem Observed.seen (h : Observed Ts l) (hi : i ∈ l.arrived) : ∃ T ∈ Ts, i ∈ T := by
  induction h with
  | start => exact absurd hi not_mem_nil
  | next _ hd ih =>
    rcases mem_append.1 hi with hi | hi
    · obtain ⟨T, hT, hiT⟩ := ih hi
      exact ⟨T, mem_append_left _ hT, hiT⟩
    · exact ⟨_, mem_append_right _ (.head _), ((hd.mem_arrived i).1 hi).1⟩

/-- What left was seen and then missed. -/
theorem Observed.not_stays (h : Observed Ts l) (hi : i ∈ l.left) : ¬ Stays Ts i := by
  induction h with
  | start => exact absurd hi not_mem_nil
  | next h hd ih =>
    intro hs
    rcases mem_append.1 hi with hi | hi
    · exact ih hi (pairwise_append.1 hs).1
    · obtain ⟨hp, hT⟩ := (hd.mem_left i).1 hi
      obtain ⟨pre, rfl⟩ := h.last hp
      have hp' := (pairwise_append.1 hs).2.2
      exact hT (hp' _ (mem_append_right _ (.head _)) _ (.head _) hp)

/-- When what left never comes back, the log is exact. -/
theorem Observed.exact (h : Observed Ts l) (hN : NeverBack Ts) : Exact l := by
  induction h with
  | start => exact ⟨.nil, .nil, nofun, fun i => by simp [Log.start]⟩
  | @next Ts l T a d h hd ih =>
    have hl := ih hN.of_append
    -- a member that arrives now and arrived before has left since, and is back
    have hback : ∀ i ∈ l.arrived, i ∉ a := by
      intro i hi hia
      obtain ⟨hT, hp⟩ := (hd.mem_arrived i).1 hia
      have hleft : i ∈ l.left := by
        by_contra hn
        exact hp ((hl.mem_present i).2 ⟨hi, hn⟩)
      exact h.not_stays hleft (hN Ts T [] rfl i hT)
    have hgone : ∀ i ∈ d, i ∈ l.arrived ∧ i ∉ l.left := fun i hi =>
      (hl.mem_present i).1 ((hd.mem_left i).1 hi).1
    refine ⟨?_, ?_, fun i hi => ?_, fun i => ?_⟩
    · exact hl.nodup_arrived.append hd.nodup_arrived hback
    · exact hl.nodup_left.append hd.nodup_left fun i hi hid => (hgone i hid).2 hi
    · rcases mem_append.1 hi with hi | hi
      · exact mem_append_left _ (hl.arrived_of_left i hi)
      · exact mem_append_left _ (hgone i hi).1
    · have hp := hl.mem_present i
      have ha := hd.mem_arrived i
      have hd := hd.mem_left i
      have hla := hl.arrived_of_left i
      have hb := hback i
      simp only [mem_append]
      grind

end

/-- Two exact logs without a common member, laid together in any order, are exact. -/
theorem Exact.merge {l l1 l2 : Log ι} (h1 : Exact l1) (h2 : Exact l2)
    (hd : ∀ i ∈ l1.arrived, i ∉ l2.arrived)
    (hp : ∀ i, i ∈ l.present ↔ i ∈ l1.present ∨ i ∈ l2.present)
    (ha : l.arrived.Perm (l1.arrived ++ l2.arrived)) (hl : l.left.Perm (l1.left ++ l2.left)) :
    Exact l where
  nodup_arrived := ha.nodup_iff.2 (h1.nodup_arrived.append h2.nodup_arrived hd)
  nodup_left := hl.nodup_iff.2 (h1.nodup_left.append h2.nodup_left fun i hi hi' =>
    hd i (h1.arrived_of_left i hi) (h2.arrived_of_left i hi'))
  arrived_of_left i := by
    rw [hl.mem_iff, ha.mem_iff, mem_append, mem_append]
    exact .imp (h1.arrived_of_left i) (h2.arrived_of_left i)
  mem_present i := by
    have h₁l := h1.arrived_of_left i
    have h₂l := h2.arrived_of_left i
    have hdi := hd i
    rw [hp, hl.mem_iff, ha.mem_iff, h1.mem_present, h2.mem_present, mem_append, mem_append]
    grind

end Presence
