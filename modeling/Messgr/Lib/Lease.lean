import Mathlib.Data.Set.Insert

/-!
# Leases

Items of a pool are leased to workers. The pool records that an item is leased, not to whom; a
worker knows what it holds. `State` has both sides, `Event` is what can happen to them, faults
included.

`Exclusive`: no item has two holders. Every event keeps it, apart from a sweep while some worker
holds an item of the pool (`Exclusive.apply`). `Covered`: every leased item has a holder. Every
event keeps it that strands no item (`Covered.apply`).
-/

namespace Lease

variable {ι ω : Type*}

/-- The items in the pool, those of them that are leased, and what each worker holds. -/
@[ext] structure State (ι ω : Type*) where
  present : Set ι
  leased : Set ι
  held : ω → Set ι

/-- What can happen to a pool of leased items. -/
inductive Event (ι ω : Type*)
  | idle
  | insert (i : ι)
  /-- a worker gets items and holds them -/
  | grant (t : ω) (g : Set ι)
  /-- items are leased and their worker does not learn of it -/
  | orphan (g : Set ι)
  /-- a worker gives an item back -/
  | release (t : ω) (i : ι)
  /-- a worker takes an item out of the pool and is done with it -/
  | retire (t : ω) (i : ι)
  /-- an item leaves the pool, whoever holds it -/
  | erase (i : ι)
  /-- a worker is done with an item and leaves it as it is -/
  | abandon (t : ω) (i : ι)
  /-- every lease is taken away -/
  | wipe
  /-- workers disappear -/
  | drop (d : Set ω)

namespace State

variable {s : State ι ω} {e : Event ι ω} {t : ω} {i j : ι}

/-- What the workers hold after `t` let go of `i`. -/
def without (s : State ι ω) (t : ω) (i : ι) : ω → Set ι :=
  fun t' => {j | j ∈ s.held t' ∧ ¬ (t' = t ∧ j = i)}

/-- The state after an event. -/
def apply (s : State ι ω) : Event ι ω → State ι ω
  | .idle => s
  | .insert i => { s with present := s.present ∪ {i} }
  | .grant t g =>
    { s with leased := s.leased ∪ g, held := fun t' => {j | j ∈ s.held t' ∨ t' = t ∧ j ∈ g} }
  | .orphan g => { s with leased := s.leased ∪ g }
  | .release t i => { s with leased := s.leased \ {i}, held := s.without t i }
  | .retire t i => ⟨s.present \ {i}, s.leased \ {i}, s.without t i⟩
  | .erase i => { s with present := s.present \ {i}, leased := s.leased \ {i} }
  | .abandon t i => { s with held := s.without t i }
  | .wipe => { s with leased := ∅ }
  | .drop d => { s with held := fun t => {i | i ∈ s.held t ∧ t ∉ d} }

/-- When an event can happen: only unleased items are granted, and only a holder gives an item back
or takes it out. -/
def Enabled (s : State ι ω) : Event ι ω → Prop
  | .insert i => ∀ t, i ∉ s.held t
  | .grant _ g => ∀ i ∈ g, i ∈ s.present ∧ i ∉ s.leased
  | .release t i | .retire t i => i ∈ s.held t
  | _ => True

/-! ## One holder -/

/-- No item has two holders, and an item of the pool that someone holds is leased. -/
structure Exclusive (s : State ι ω) : Prop where
  unique : ∀ {t t' i}, i ∈ s.held t → i ∈ s.held t' → t = t'
  guarded : ∀ {t i}, i ∈ s.held t → i ∈ s.present → i ∈ s.leased

/-- Letting go of an item keeps holders unique. -/
theorem Exclusive.unique_without (h : s.Exclusive) {t1 t2 : ω} (h1 : j ∈ s.without t i t1)
    (h2 : j ∈ s.without t i t2) : t1 = t2 :=
  h.unique h1.1 h2.1

/-- The holder of an item that is given back or taken out was the only one. -/
theorem Exclusive.ne_of_without (h : s.Exclusive) {t' : ω} (hi : i ∈ s.held t)
    (hj : j ∈ s.without t i t') : j ≠ i := by
  intro hji
  subst hji
  exact hj.2 ⟨h.unique hj.1 hi, rfl⟩

/-- Every event keeps holders unique, but a sweep while an item of the pool is held. -/
theorem Exclusive.apply (h : s.Exclusive) (he : s.Enabled e)
    (hw : e = .wipe → ∀ t, ∀ i ∈ s.held t, i ∉ s.present) : (s.apply e).Exclusive := by
  cases e with
  | idle => exact h
  | insert i =>
    refine ⟨h.unique, fun {t j} hj hp => ?_⟩
    rcases hp with hp | hp
    · exact h.guarded hj hp
    · exact absurd (hp ▸ hj) (he t)
  | grant t g =>
    -- whoever held an item of `g` before would have it leased
    have hnew : ∀ {t' i}, i ∈ g → i ∉ s.held t' :=
      fun hi hh => (he _ hi).2 (h.guarded hh (he _ hi).1)
    refine ⟨fun {t1 t2 i} h1 h2 => ?_, fun {t' i} hi hp => ?_⟩
    · rcases h1 with h1 | ⟨rfl, h1⟩ <;> rcases h2 with h2 | ⟨rfl, h2⟩
      · exact h.unique h1 h2
      · exact absurd h1 (hnew h2)
      · exact absurd h2 (hnew h1)
      · rfl
    · rcases hi with hi | ⟨-, hi⟩
      · exact .inl (h.guarded hi hp)
      · exact .inr hi
  | orphan g => exact ⟨h.unique, fun hi hp => .inl (h.guarded hi hp)⟩
  | release t i =>
    exact ⟨h.unique_without, fun hj hp => ⟨h.guarded hj.1 hp, h.ne_of_without he hj⟩⟩
  | retire t i =>
    exact ⟨h.unique_without, fun hj hp => ⟨h.guarded hj.1 hp.1, h.ne_of_without he hj⟩⟩
  | erase i => exact ⟨h.unique, fun hj hp => ⟨h.guarded hj hp.1, hp.2⟩⟩
  | abandon t i => exact ⟨h.unique_without, fun hj hp => h.guarded hj.1 hp⟩
  | wipe => exact ⟨h.unique, fun {t i} hi hp => absurd hp (hw rfl t i hi)⟩
  | drop d => exact ⟨fun h1 h2 => h.unique h1.1 h2.1, fun hi hp => h.guarded hi.1 hp⟩

/-! ## Some holder -/

/-- Every leased item has a holder. -/
def Covered (s : State ι ω) : Prop := ∀ i ∈ s.leased, ∃ t, i ∈ s.held t

/-- The events that may leave an item leased without a holder. -/
def Strands (s : State ι ω) : Event ι ω → Prop
  | .orphan g => g.Nonempty
  | .drop d => ∃ t ∈ d, ∃ i ∈ s.held t, i ∈ s.leased
  | .abandon _ i => i ∈ s.leased
  | _ => False

theorem exists_without (h : ∃ t', j ∈ s.held t') (hne : j ≠ i) : ∃ t', j ∈ s.without t i t' := by
  obtain ⟨t', ht'⟩ := h
  exact ⟨t', ht', fun hc => hne hc.2⟩

/-- Every event that strands nothing keeps leased items held. -/
theorem Covered.apply (h : s.Covered) (he : ¬ s.Strands e) : (s.apply e).Covered := by
  cases e with
  | idle => exact h
  | insert i => exact h
  | grant t g =>
    intro i hi
    rcases hi with hi | hi
    · obtain ⟨t', ht'⟩ := h i hi
      exact ⟨t', .inl ht'⟩
    · exact ⟨t, .inr ⟨rfl, hi⟩⟩
  | orphan g =>
    intro i hi
    rcases hi with hi | hi
    · exact h i hi
    · exact absurd ⟨i, hi⟩ he
  | release | retire => exact fun j hj => exists_without (h j hj.1) hj.2
  | erase i => exact fun j hj => h j hj.1
  | abandon t i => exact fun j hj => exists_without (h j hj) fun hji => he (hji ▸ hj)
  | wipe => exact fun i hi => absurd hi (Set.notMem_empty i)
  | drop d =>
    intro i hi
    obtain ⟨t, ht⟩ := h i hi
    exact ⟨t, ht, fun hd => he ⟨t, hd, i, ht, hi⟩⟩

end State

end Lease
