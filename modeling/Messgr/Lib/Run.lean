import Mathlib.Logic.Basic

/-!
# Runs of a partial step function

A system is a partial function `step : σ → α → Option σ`: the action `a` is possible in the state
`s` when `step s a` is `some`. Everything the environment decides is part of the action, so one list
of actions is one interleaving, and `exec` performs it. `Steps step C s as t` is the run of `as`
from `s` to `t` in which every step meets the condition `C` in the state it is taken in. An
invariant is proved for one step and lifted to runs by `Steps.inv`.
-/

namespace Run

variable {σ α : Type*}

/-- Performs the actions of a list in order. -/
def exec (step : σ → α → Option σ) : σ → List α → Option σ
  | s, [] => some s
  | s, a :: as => (step s a).bind (exec step · as)

/-- The run of `as` from `s` to `t` whose every step meets `C` in its state. -/
inductive Steps (step : σ → α → Option σ) (C : σ → α → Prop) : σ → List α → σ → Prop
  | nil {s : σ} : Steps step C s [] s
  | cons {s t u : σ} {a : α} {as : List α} :
      C s a → step s a = some t → Steps step C t as u → Steps step C s (a :: as) u

/-- The condition that every step meets: runs under it are all runs. -/
def Any (_ : σ) (_ : α) : Prop := True

section
variable {step : σ → α → Option σ} {C D : σ → α → Prop} {s t u : σ} {a : α} {as bs : List α}
variable {E : σ → α → Prop}

/-- A run under a condition is a run under every weaker one. -/
theorem Steps.mono (hCD : ∀ s a, C s a → D s a) (h : Steps step C s as t) :
    Steps step D s as t := by
  induction h with
  | nil => exact .nil
  | cons hc hs _ ih => exact .cons (hCD _ _ hc) hs ih

/-- Two runs compose. -/
theorem Steps.append (h1 : Steps step C s as t) (h2 : Steps step C t bs u) :
    Steps step C s (as ++ bs) u := by
  induction h1 with
  | nil => exact h2
  | cons hc hs _ ih => exact .cons hc hs (ih h2)

/-- A run followed by one more step. -/
theorem Steps.snoc (h : Steps step C s as t) (hc : C t a) (hs : step t a = some u) :
    Steps step C s (as ++ [a]) u :=
  h.append (.cons hc hs .nil)

/-- The invariant rule: what one step keeps, a run keeps. -/
theorem Steps.inv {I : σ → Prop} (hI : ∀ s a t, C s a → step s a = some t → I s → I t)
    (h : Steps step C s as t) (h0 : I s) : I t := by
  induction h with
  | nil => exact h0
  | cons hc hs _ ih => exact ih (hI _ _ _ hc hs h0)

/-- The invariant rule for a property that rests on an invariant `J` proved before. -/
theorem Steps.inv_of {I J : σ → Prop} (hJ : ∀ s a t, C s a → step s a = some t → J s → J t)
    (hI : ∀ s a t, C s a → step s a = some t → J s → I s → I t)
    (h : Steps step C s as t) (hJ0 : J s) (hI0 : I s) : I t :=
  (h.inv (I := fun s => J s ∧ I s)
    (fun s a t hc hs hi => ⟨hJ s a t hc hs hi.1, hI s a t hc hs hi.1 hi.2⟩) ⟨hJ0, hI0⟩).2

/-- A run under two conditions. -/
theorem Steps.and (h : Steps step C s as t) (h' : Steps step D s as t) :
    Steps step (fun s a => C s a ∧ D s a) s as t := by
  induction h with
  | nil => exact .nil
  | cons hc hs _ ih =>
    cases h' with
    | cons hd hs' h' =>
      cases hs.symm.trans hs'
      exact .cons ⟨hc, hd⟩ hs (ih h')

/-- What every step keeps may be assumed at every step. -/
theorem Steps.and_inv {I : σ → Prop} (hI : ∀ s a t, C s a → step s a = some t → I s → I t)
    (h : Steps step C s as t) (h0 : I s) : Steps step (fun s a => C s a ∧ I s) s as t := by
  induction h with
  | nil => exact .nil
  | cons hc hs _ ih => exact .cons ⟨hc, h0⟩ hs (ih (hI _ _ _ hc hs h0))

/-- The invariant rule for a property of the actions so far and their state. -/
theorem Steps.inv_history {I : List α → σ → Prop}
    (hI : ∀ as t a u, Steps step C s as t → C t a → step t a = some u → I as t → I (as ++ [a]) u)
    (h : Steps step C s as t) (h0 : I [] s) : I as t := by
  -- from any point of the run on, with the actions before it
  have key : ∀ {u as t}, Steps step C u as t → ∀ bs, Steps step C s bs u → I bs u →
      I (bs ++ as) t := by
    intro u as t h
    induction h with
    | nil =>
      intro bs _ hi
      rwa [List.append_nil]
    | @cons u v t a as hc hs _ ih =>
      intro bs hb hi
      have := ih (bs ++ [a]) (hb.snoc hc hs) (hI bs u a v hb hc hs hi)
      rwa [List.append_assoc] at this
  exact key h [] .nil h0

/-- On the way from `s` to `t` a step was taken at which `E` held. -/
def Passed (step : σ → α → Option σ) (C E : σ → α → Prop) (s : σ) (as : List α) (t : σ) : Prop :=
  ∃ as1 a as2 u v, as = as1 ++ a :: as2 ∧ Steps step C s as1 u ∧ C u a ∧ step u a = some v ∧
    Steps step C v as2 t ∧ E u a

theorem Passed.mono (hCD : ∀ s a, C s a → D s a) (h : Passed step C E s as t) :
    Passed step D E s as t := by
  obtain ⟨as1, a, as2, u, v, has, h1, ha, hv, h2, hE⟩ := h
  exact ⟨as1, a, as2, u, v, has, h1.mono hCD, hCD u a ha, hv, h2.mono hCD, hE⟩

theorem Passed.snoc (h : Passed step C E s as t) (hc : C t a) (hs : step t a = some u) :
    Passed step C E s (as ++ [a]) u := by
  obtain ⟨as1, b, as2, v, v', rfl, h1, hb, hv, h2, hE⟩ := h
  exact ⟨as1, b, as2 ++ [a], v, v', by simp, h1, hb, hv, h2.snoc hc hs, hE⟩

theorem Passed.last (h : Steps step C s as t) (hc : C t a) (hs : step t a = some u) (hE : E t a) :
    Passed step C E s (as ++ [a]) u :=
  ⟨as, a, [], t, u, rfl, h, hc, hs, .nil, hE⟩

/-- A list of actions that `exec` performs is a run. -/
theorem Steps.of_exec : ∀ {s : σ} {as : List α}, exec step s as = some t → Steps step Any s as t
  | s, [], h => by
    cases h
    exact .nil
  | s, a :: as, h => by
    obtain ⟨v, hv, ht⟩ := Option.bind_eq_some_iff.1 h
    exact .cons trivial hv (.of_exec ht)

/-- A list of actions that `exec` performs, to a state with the property `p`, is a run to such a
state. -/
theorem Steps.exists_of_exec (step : σ → α → Option σ) (s : σ) (as : List α) (p : σ → Bool)
    (h : (exec step s as).any p = true) : ∃ t, Steps step Any s as t ∧ p t = true := by
  cases he : exec step s as with
  | none => rw [he] at h; cases h
  | some t => rw [he] at h; exact ⟨t, .of_exec he, h⟩

/-- The same for a run under a condition that can be checked. -/
theorem Steps.exists_of_checked (step : σ → α → Option σ) (c : σ → α → Bool) (s : σ)
    (as : List α) (p : σ → Bool)
    (h : (exec (fun s a => if c s a then step s a else none) s as).any p = true) :
    ∃ t, Steps step (fun s a => c s a = true) s as t ∧ p t = true := by
  obtain ⟨t, ht, hp⟩ := exists_of_exec _ s as p h
  refine ⟨t, ?_, hp⟩
  clear h hp
  induction ht with
  | nil => exact .nil
  | @cons s _ _ a _ _ hs _ ih =>
    cases hca : c s a with
    | false => simp [hca] at hs
    | true => exact .cons hca (by simpa [hca] using hs) ih

/-- The same for a run on the way of which a step is taken at which `e` holds. -/
theorem Passed.exists_of_checked (step : σ → α → Option σ) (c e : σ → α → Bool) (s : σ)
    (as : List α) (a : α) (bs : List α) (p : σ → Bool)
    (h : (exec (fun s a => if c s a then step s a else none) s as).any (fun u =>
      c u a && e u a && (step u a).any fun v =>
        (exec (fun s a => if c s a then step s a else none) v bs).any p) = true) :
    ∃ t, Passed step (fun s a => c s a = true) (fun s a => e s a = true) s (as ++ a :: bs) t ∧
      p t = true := by
  obtain ⟨u, hu, hrest⟩ := Steps.exists_of_checked step c s as _ h
  obtain ⟨hce, hv⟩ := Bool.and_eq_true_iff.1 hrest
  obtain ⟨hc, he⟩ := Bool.and_eq_true_iff.1 hce
  obtain ⟨v, hstep, hbs⟩ := (Option.any_eq_true _ _).1 hv
  obtain ⟨t, ht, hp⟩ := Steps.exists_of_checked step c v bs p hbs
  exact ⟨t, ⟨as, a, bs, u, v, rfl, hu, hc, hstep, ht, he⟩, hp⟩

/-! ## Counting along a run -/

/-- The sum of what `f` counts at every step of a list of actions. -/
def total (step : σ → α → Option σ) (f : σ → α → σ → Nat) : σ → List α → Nat
  | _, [] => 0
  | s, a :: as =>
    match step s a with
    | none => 0
    | some t => f s a t + total step f t as

variable {f g : σ → α → σ → Nat}

theorem total_cons (hs : step s a = some t) :
    total step f s (a :: as) = f s a t + total step f t as := by
  rw [total, hs]

theorem Steps.total_append (h : Steps step C s as t) :
    total step f s (as ++ bs) = total step f s as + total step f t bs := by
  induction h with
  | nil => simp [total]
  | cons _ hs _ ih => rw [List.cons_append, total_cons hs, total_cons hs, ih, Nat.add_assoc]

/-- The potential rule: what every step pays for, the run does. `I` is an invariant. -/
theorem Steps.total_le {I : σ → Prop} {Φ : σ → Nat}
    (hI : ∀ s a t, C s a → step s a = some t → I s → I t)
    (hΦ : ∀ s a t, C s a → step s a = some t → I s → f s a t + Φ t ≤ Φ s + g s a t)
    (h : Steps step C s as t) (h0 : I s) : total step f s as + Φ t ≤ Φ s + total step g s as := by
  induction h with
  | nil => simp [total]
  | @cons s t u a as hc hs _ ih =>
    have h1 := hΦ s a t hc hs h0
    have h2 := ih (hI s a t hc hs h0)
    rw [total_cons hs, total_cons hs]
    omega

/-- Sums add up. -/
theorem Steps.total_linear (m n : Nat) (h : Steps step C s as t) :
    total step (fun s a t => m * f s a t + n * g s a t) s as =
      m * total step f s as + n * total step g s as := by
  induction h with
  | nil => simp [total]
  | cons _ hs _ ih =>
    rw [total_cons hs, total_cons hs, total_cons hs, ih, Nat.mul_add, Nat.mul_add]
    omega

end

end Run
