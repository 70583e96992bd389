import Mathlib.Data.Set.Basic

/-!
# Observers of a registry

Items are registered with a tier, live for a while and are then withdrawn for good. An observer
keeps a copy of the live ones, its `cache`: it reads the tiers one after the other, and then swaps
what it read for its copy, keeping the old entries of a tier it could not read. An item on `hold`
that leaves the cache so is `pending`, is moved to `draining` by a later step, and leaves there when
it is `drained`. `Inv` holds in every run, `Fresh` of an item that is live all along.

A read may be old when it is swapped in. What makes this harmless is that nothing comes back: an
item that was seen and is not in the cache is not live and in no read under way (`Inv.gone`), hence
never enters the cache again (`Inv.seen_and_left`).
-/

namespace Observer

/-- A registry and one observer of it. `refreshed` are the tiers of which a read was swapped in,
`seen` the items that ever were. -/
@[ext] structure State (ι τ : Type*) where
  known : τ → Set ι
  live : τ → Set ι
  cache : Set ι
  read : τ → Option (Set ι)
  refreshed : Set τ
  seen : Set ι
  hold : Set ι
  pending : Set ι
  draining : Set ι
  drained : Set ι

variable {ι τ : Type*}

/-- An item has been registered. -/
def State.Known (s : State ι τ) (x : ι) : Prop := ∃ t, x ∈ s.known t

/-- What a swap puts into the cache of a tier: what was read, or what was there. -/
def State.next (s : State ι τ) (t : τ) : Set ι := (s.read t).getD (s.cache ∩ s.known t)

/-- What a swap puts into the cache. -/
def State.Swapped (s : State ι τ) (x : ι) : Prop := ∃ t, x ∈ s.next t

theorem State.next_of_read {s : State ι τ} {t : τ} {l : Set ι} (h : s.read t = some l) :
    s.next t = l := by
  rw [next, h, Option.getD_some]

theorem State.next_of_none {s : State ι τ} {t : τ} (h : s.read t = none) :
    s.next t = s.cache ∩ s.known t := by
  rw [next, h, Option.getD_none]

/-- What the registry and the observer do. -/
inductive Step (s : State ι τ) : State ι τ → Prop
  | idle : Step s s
  | registry {known live : τ → Set ι} (grows : ∀ t, s.known t ⊆ known t)
      (shrinks : ∀ t, ∀ x ∈ live t, x ∈ s.known t → x ∈ s.live t) (sub : ∀ t, live t ⊆ known t)
      (disjoint : ∀ t u x, x ∈ known t → x ∈ known u → t = u) :
      Step s { s with known := known, live := live }
  | read {read : τ → Option (Set ι)}
      (reads : ∀ t l, read t = some l → s.read t = some l ∨ l = s.live t) :
      Step s { s with read := read }
  | swap {cache seen pending : Set ι} {refreshed : Set τ} (settled : s.pending = ∅)
      (swapped : ∀ x, x ∈ cache ↔ s.Swapped x)
      (left : ∀ x ∈ s.cache, x ∈ s.hold → x ∉ cache → x ∈ pending) (old : pending ⊆ s.cache)
      (grows : s.seen ⊆ seen) (new : seen ⊆ s.seen ∪ cache)
      (tiers : ∀ t ∈ refreshed, t ∈ s.refreshed ∨ s.read t ≠ none) :
      Step s { s with
        cache := cache, read := fun _ => none, refreshed := refreshed, seen := seen
        pending := pending }
  | handOver {pending draining : Set ι} (sub : pending ⊆ s.pending)
      (moved : ∀ x ∈ s.pending, x ∈ s.hold → x ∈ pending ∨ x ∈ draining)
      (kept : ∀ x ∈ s.draining, s.Known x → x ∈ draining) :
      Step s { s with pending := pending, draining := draining }
  | drained {draining drained : Set ι} (kept : ∀ x ∈ s.draining, x ∈ draining ∨ x ∈ drained)
      (sub : s.drained ⊆ drained) : Step s { s with draining := draining, drained := drained }

/-- What holds in every run. -/
structure Inv (s : State ι τ) : Prop where
  sub : ∀ t, s.live t ⊆ s.known t
  disjoint : ∀ t u x, x ∈ s.known t → x ∈ s.known u → t = u
  cache_known : ∀ x ∈ s.cache, s.Known x
  read_known : ∀ t l, s.read t = some l → l ⊆ s.known t
  pending_known : ∀ x ∈ s.pending, s.Known x
  seen_known : ∀ x ∈ s.seen, s.Known x
  missed : ∀ t l, s.read t = some l → ∀ x ∈ s.cache, x ∈ s.known t → x ∈ l ∨ x ∉ s.live t
  gone : ∀ x ∈ s.seen, x ∈ s.cache ∨ ∀ t, x ∉ s.live t ∧ ∀ l, s.read t = some l → x ∉ l
  kept : ∀ x ∈ s.seen, x ∈ s.hold → x ∈ s.drained ∨ x ∈ s.cache ∨ x ∈ s.pending ∨ x ∈ s.draining

section
variable {s s' : State ι τ} {x : ι} {t : τ}

/-- What a swap puts into the cache is registered. -/
theorem Inv.known_of_swapped (h : Inv s) (hx : s.Swapped x) : s.Known x := by
  obtain ⟨t, ht⟩ := hx
  cases hr : s.read t with
  | some l =>
    rw [State.next_of_read hr] at ht
    exact ⟨t, h.read_known t l hr ht⟩
  | none =>
    rw [State.next_of_none hr] at ht
    exact ⟨t, ht.2⟩

/-- What a swap drops was withdrawn. -/
theorem Inv.not_live_of_not_swapped (h : Inv s) (hx : x ∈ s.cache) (hs : ¬ s.Swapped x) (t : τ) :
    x ∉ s.live t := by
  intro hl
  have hk := h.sub t hl
  refine hs ⟨t, ?_⟩
  cases hr : s.read t with
  | some l =>
    rw [State.next_of_read hr]
    exact (h.missed t l hr x hx hk).resolve_right (absurd hl)
  | none =>
    rw [State.next_of_none hr]
    exact ⟨hx, hk⟩

/-- An item that was seen and is not swapped in was withdrawn. -/
theorem Inv.not_live_of_seen (h : Inv s) (hx : x ∈ s.seen) (hs : ¬ s.Swapped x) (t : τ) :
    x ∉ s.live t := by
  rcases h.gone x hx with hc | hg
  · exact h.not_live_of_not_swapped hc hs t
  · exact (hg t).1

/-- Nothing comes back: an item seen that has left the cache stays out. -/
theorem Inv.seen_and_left (h : Inv s) (hs : Step s s') (hx : x ∈ s.seen ∧ x ∉ s.cache) :
    x ∈ s'.seen ∧ x ∉ s'.cache := by
  obtain ⟨hx, hc⟩ := hx
  cases hs with
  | swap settled swapped left old grows new tiers =>
    refine ⟨grows hx, fun hc' => ?_⟩
    obtain ⟨t, ht⟩ := (swapped x).1 hc'
    cases hr : s.read t with
    | some l =>
      rw [State.next_of_read hr] at ht
      exact (((h.gone x hx).resolve_left hc) t).2 l hr ht
    | none =>
      rw [State.next_of_none hr] at ht
      exact hc ht.1
  | _ => exact ⟨hx, hc⟩

/-- Every step keeps the invariant. -/
theorem Inv.step (h : Inv s) (hs : Step s s') : Inv s' := by
  cases hs with
  | idle => exact h
  | @registry known live grows shrinks sub disjoint =>
    have hknown : ∀ x, s.Known x → ∃ t, x ∈ known t := by
      intro x ⟨t, ht⟩
      exact ⟨t, grows t ht⟩
    have hlive : ∀ x, s.Known x → ∀ t, x ∈ live t → x ∈ s.live t := by
      intro x ⟨u, hu⟩ t ht
      cases disjoint t u x (sub t ht) (grows u hu)
      exact shrinks _ x ht hu
    exact {
      sub := sub
      disjoint := disjoint
      cache_known := fun x hx => hknown x (h.cache_known x hx)
      read_known := fun t l hr => (h.read_known t l hr).trans (grows t)
      pending_known := fun x hx => hknown x (h.pending_known x hx)
      seen_known := fun x hx => hknown x (h.seen_known x hx)
      missed := by
        intro t l hr x hx hk
        obtain ⟨u, hu⟩ := h.cache_known x hx
        cases disjoint t u x hk (grows u hu)
        exact (h.missed t l hr x hx hu).imp id fun hl hl' => hl (hlive x ⟨t, hu⟩ t hl')
      gone := fun x hx => (h.gone x hx).imp id fun hg t =>
        ⟨fun hl => (hg t).1 (hlive x (h.seen_known x hx) t hl), (hg t).2⟩
      kept := h.kept }
  | @read read reads =>
    exact { h with
      read_known := by
        intro t l hr
        rcases reads t l hr with hr | rfl
        · exact h.read_known t l hr
        · exact h.sub t
      missed := by
        intro t l hr x hx hk
        rcases reads t l hr with hr | rfl
        · exact h.missed t l hr x hx hk
        · exact Classical.em _
      gone := by
        intro x hx
        refine (h.gone x hx).imp id fun hg t => ⟨(hg t).1, fun l hr => ?_⟩
        rcases reads t l hr with hr | rfl
        · exact (hg t).2 l hr
        · exact (hg t).1 }
  | @swap cache seen pending refreshed settled swapped left old grows new tiers =>
    have hcache : ∀ x ∈ cache, s.Known x := fun x hx => h.known_of_swapped ((swapped x).1 hx)
    exact { h with
      cache_known := hcache
      read_known := fun t l hr => by cases hr
      pending_known := fun x hx => h.cache_known x (old hx)
      seen_known := fun x hx => (new hx).elim (h.seen_known x) (hcache x)
      missed := fun t l hr => by cases hr
      gone := by
        intro x hx
        by_cases hc : x ∈ cache
        · exact .inl hc
        · have hs : ¬ s.Swapped x := mt (swapped x).2 hc
          exact .inr fun t => ⟨h.not_live_of_seen ((new hx).resolve_right hc) hs t,
            fun l hr => (by cases hr)⟩
      kept := by
        intro x hx hh
        by_cases hc : x ∈ cache
        · exact .inr (.inl hc)
        · rcases h.kept x ((new hx).resolve_right hc) hh with hd | hold | hp | hd
          · exact .inl hd
          · exact .inr (.inr (.inl (left x hold hh hc)))
          · rw [settled] at hp
            exact absurd hp (Set.notMem_empty x)
          · exact .inr (.inr (.inr hd)) }
  | handOver sub moved kept =>
    exact { h with
      pending_known := fun x hx => h.pending_known x (sub hx)
      kept := by
        intro x hx hh
        rcases h.kept x hx hh with hd | hc | hp | hd
        · exact .inl hd
        · exact .inr (.inl hc)
        · exact .inr (.inr (moved x hp hh))
        · exact .inr (.inr (.inr (kept x hd (h.seen_known x hx)))) }
  | drained kept sub =>
    exact { h with
      kept := by
        intro x hx hh
        rcases h.kept x hx hh with hd | hc | hp | hd
        · exact .inl (sub hd)
        · exact .inr (.inl hc)
        · exact .inr (.inr (.inl hp))
        · rcases kept x hd with hd | hd
          · exact .inr (.inr (.inr hd))
          · exact .inl hd }

/-! ## Items that are live all along -/

/-- The observer has not missed an item: a read under way has it, and so has the cache once a read
of its tier was swapped in. -/
structure Fresh (t : τ) (x : ι) (s : State ι τ) : Prop where
  read : ∀ l, s.read t = some l → x ∈ l
  cache : t ∈ s.refreshed → x ∈ s.cache

/-- An observer does not miss an item while it is live. -/
theorem Fresh.step (h : Fresh t x s) (hi : Inv s) (hx : x ∈ s.live t) (hs : Step s s') :
    Fresh t x s' := by
  cases hs with
  | idle => exact h
  | registry | handOver | drained => exact ⟨h.read, h.cache⟩
  | read reads =>
    refine ⟨fun l hr => ?_, h.cache⟩
    rcases reads t l hr with hr | rfl
    · exact h.read l hr
    · exact hx
  | swap settled swapped left old grows new tiers =>
    refine ⟨fun l hr => (by cases hr), fun ht => (swapped x).2 ⟨t, ?_⟩⟩
    cases hr : s.read t with
    | some l =>
      rw [State.next_of_read hr]
      exact h.read l hr
    | none =>
      rw [State.next_of_none hr]
      exact ⟨h.cache ((tiers t ht).resolve_right (absurd hr)), hi.sub t hx⟩

end

end Observer
