import Messgr.Lib.Indexed
import Messgr.Lib.Run

/-!
# Concurrent programs of atomic statements

A program is a tree: it returns, fails, or makes a statement and goes on with its answer (`Prog`). A
system runs any number of programs over one shared state, one statement at a time in any order; the
environment decides what a statement answers, starts new programs and moves on its own (`Sys.step`).
A statement that fails ends its program with the error.

Such systems are verified by rely and guarantee (`Rules`): an invariant of the shared state, and for
every thread a relation that bounds what the others do to it. `Rules.Wp` says that a program keeps
these and ends in a postcondition whatever the others do in between. It is proved along the program
(`Wp.ret`, `Wp.call`, `Wp.bind`) and holds in every run (`Rules.Holds.run`).
-/

universe u v w x

/-- A program that makes statements `s : S`, is answered in `R s`, and returns an `α` or fails
with an `ε`. -/
inductive Prog {S : Type u} (R : S → Type v) (ε : Type w) (α : Type x) : Type (max u v w x)
  | ret (a : α)
  | fail (e : ε)
  | call (s : S) (k : R s → Prog R ε α)

namespace Prog

variable {S : Type u} {R : S → Type v} {ε : Type w} {α β : Type x}
variable {answer : (s : S) → Option (Except ε (R s))}

/-- One program after another. -/
def bind : Prog R ε α → (α → Prog R ε β) → Prog R ε β
  | .ret a, f => f a
  | .fail e, _ => .fail e
  | .call s k, f => .call s fun r => (k r).bind f

instance : Monad (Prog R ε) where
  pure := .ret
  bind := .bind

theorem bind_assoc {γ : Type x} (p : Prog R ε α) (f : α → Prog R ε β) (g : β → Prog R ε γ) :
    p >>= f >>= g = p >>= fun a => f a >>= g := by
  induction p with
  | ret a => rfl
  | fail e => rfl
  | call s k ih => exact congrArg (call s) (funext ih)

/-- The program that makes one statement and returns its answer. -/
def stmt (s : S) : Prog R ε (R s) := .call s .ret

/-- How a program has ended. -/
def result : Prog R ε α → Option (Except ε α)
  | .ret a => some (.ok a)
  | .fail e => some (.error e)
  | .call _ _ => none

/-- The program after the answer to its statement. -/
def resume {s : S} (k : R s → Prog R ε α) : Except ε (R s) → Prog R ε α
  | .ok r => k r
  | .error e => .fail e

/-- How a program ends when nothing changes meanwhile: a statement has at most one answer. -/
def answered (answer : (s : S) → Option (Except ε (R s))) : Prog R ε α → Option (Except ε α)
  | .ret a => some (.ok a)
  | .fail e => some (.error e)
  | .call s k => (answer s).bind fun
    | .ok r => (k r).answered answer
    | .error e => some (.error e)

theorem answered_stmt (s : S) : (stmt s : Prog R ε (R s)).answered answer = answer s := by
  rw [stmt, answered]
  cases h : answer s with
  | none => rfl
  | some r => cases r <;> rfl

theorem answered_bind {f : α → Prog R ε β} (p : Prog R ε α) :
    (p >>= f).answered answer = (p.answered answer).bind fun
      | .ok a => (f a).answered answer
      | .error e => some (.error e) := by
  induction p with
  | ret a => rfl
  | fail e => rfl
  | call s k ih =>
    rw [show (call s k >>= f) = call s fun r => k r >>= f from rfl, answered, answered,
      Option.bind_assoc]
    refine congrArg _ (funext fun r => ?_)
    cases r with
    | ok r => exact ih r
    | error e => rfl

end Prog

/-! ## Systems of programs -/

/-- Programs over a shared state `σ`: the program of an input, and what a start, a thread's
statement and a move of the environment do. -/
structure Sys (σ ι Ev Env : Type*) {S : Type u} (R : S → Type v) (ε : Type w) (α : Type x) where
  body : ι → Prog R ε α
  start : Nat → ι → σ → Option σ
  exec : Nat → ι → (s : S) → Ev → σ → Option (σ × Except ε (R s))
  env : Env → σ → Option σ

/-- A program that was started, and what is left of it. -/
structure Thread (ι : Type*) {S : Type u} (R : S → Type v) (ε : Type w) (α : Type x) where
  input : ι
  prog : Prog R ε α

/-- The threads are named by the order in which they were started. -/
structure Pool (σ ι : Type*) {S : Type u} (R : S → Type v) (ε : Type w) (α : Type x) where
  shared : σ
  threads : List (Thread ι R ε α)

/-- The input of a thread that has ended, and how it ended. -/
def Pool.ended {σ ι : Type*} {S : Type u} {R : S → Type v} {ε : Type w} {α : Type x}
    (p : Pool σ ι R ε α) (t : Nat) : Option (ι × Except ε α) :=
  p.threads[t]?.bind fun th => th.prog.result.map (th.input, ·)

/-- One step of a system. -/
inductive Sys.Act (ι Ev Env : Type*)
  | start (i : ι)
  | step (t : Nat) (e : Ev)
  | env (x : Env)

section
variable {σ ι Ev Env : Type*} {S : Type u} {R : S → Type v} {ε : Type w} {α β : Type x}
variable {sys : Sys σ ι Ev Env R ε α} {w w' : Pool σ ι R ε α}

/-- What a step does. -/
def Sys.step (sys : Sys σ ι Ev Env R ε α) (w : Pool σ ι R ε α) :
    Sys.Act ι Ev Env → Option (Pool σ ι R ε α)
  | .start i =>
    (sys.start w.threads.length i w.shared).map fun s => ⟨s, w.threads ++ [⟨i, sys.body i⟩]⟩
  | .env x => (sys.env x w.shared).map fun s => ⟨s, w.threads⟩
  | .step t e =>
    match w.threads[t]? with
    | some ⟨i, .call s k⟩ =>
      (sys.exec t i s e w.shared).map fun p => ⟨p.1, w.threads.set t ⟨i, Prog.resume k p.2⟩⟩
    | _ => none

/-- A thread's step is its next statement. -/
theorem Sys.step_thread {t : Nat} {e : Ev} (h : sys.step w (.step t e) = some w') :
    ∃ i s k s' a, w.threads[t]? = some ⟨i, .call s k⟩ ∧
      sys.exec t i s e w.shared = some (s', a) ∧
      w' = ⟨s', w.threads.set t ⟨i, Prog.resume k a⟩⟩ := by
  simp only [Sys.step] at h
  split at h
  · next i s k hth =>
    obtain ⟨⟨s', a⟩, hx, rfl⟩ := Option.map_eq_some_iff.1 h
    exact ⟨i, s, k, s', a, hth, hx, rfl⟩
  · cases h

/-- Threads are only added. -/
theorem Sys.step_length {a : Sys.Act ι Ev Env} (h : sys.step w a = some w') :
    w.threads.length ≤ w'.threads.length := by
  cases a with
  | start i =>
    obtain ⟨s', -, rfl⟩ := Option.map_eq_some_iff.1 h
    simp
  | env x =>
    obtain ⟨s', -, rfl⟩ := Option.map_eq_some_iff.1 h
    exact Nat.le_refl _
  | step t e =>
    obtain ⟨i, s, k, s', a, -, -, rfl⟩ := Sys.step_thread h
    simp

theorem Sys.run_length {C : Pool σ ι R ε α → Sys.Act ι Ev Env → Prop} {as : List (Sys.Act ι Ev Env)}
    (h : Run.Steps sys.step C w as w') : w.threads.length ≤ w'.threads.length :=
  h.inv (I := fun v => w.threads.length ≤ v.threads.length)
    (fun _ _ _ _ hs hv => Nat.le_trans hv (Sys.step_length hs)) (Nat.le_refl _)

/-! ## Rely and guarantee -/

/-- The rules of a system: an invariant, what the threads other than `t` may do to the shared state
between two statements of `t`, and the statements considered. -/
structure Rules (sys : Sys σ ι Ev Env R ε α) where
  inv : σ → Prop
  others : Nat → σ → σ → Prop
  refl : ∀ t s, others t s s
  trans : ∀ t s1 s2 s3, others t s1 s2 → others t s2 s3 → others t s1 s3
  considered : Nat → ι → (s : S) → Ev → σ → Prop

namespace Rules

variable {sys : Sys σ ι Ev Env R ε α} (r : Rules sys)
variable {C : Pool σ ι R ε α → Sys.Act ι Ev Env → Prop} {as : List (Sys.Act ι Ev Env)}
variable {p : Prog R ε β}

/-- From `s` on, the rest of thread `t`'s program keeps the rules and ends in `Q`, however the
others move in between. -/
def Wp {β : Type x} (t : Nat) (i : ι) (Q : Except ε β → σ → Prop) : Prog R ε β → σ → Prop
  | .ret b, s => ∀ s', r.others t s s' → Q (.ok b) s'
  | .fail e, s => ∀ s', r.others t s s' → Q (.error e) s'
  | .call c k, s => ∀ s', r.others t s s' → r.inv s' → ∀ e s'' a, r.considered t i c e s' →
      sys.exec t i c e s' = some (s'', a) →
      r.inv s'' ∧ (∀ u, u ≠ t → r.others u s' s'') ∧
        match a with
        | .ok b => Wp t i Q (k b) s''
        | .error e => ∀ s3, r.others t s'' s3 → Q (.error e) s3

variable {r} {t : Nat} {i : ι} {s s' : σ}

/-- What the others do keeps it. -/
theorem Wp.later {Q : Except ε β → σ → Prop} (h : r.Wp t i Q p s) (hs : r.others t s s') :
    r.Wp t i Q p s' := by
  cases p with
  | ret | fail | call => exact fun s2 h2 => h s2 (r.trans _ _ _ _ hs h2)

/-- A program that has returned. -/
theorem Wp.ret {Q : Except ε β → σ → Prop} {b : β} (h : ∀ s', r.others t s s' → Q (.ok b) s') :
    r.Wp t i Q (pure b) s := h

/-- A program that has failed. -/
theorem Wp.fail {Q : Except ε β → σ → Prop} {e : ε}
    (h : ∀ s', r.others t s s' → Q (.error e) s') : r.Wp t i Q (.fail e) s := h

/-- A weaker postcondition. -/
theorem Wp.mono {Q Q' : Except ε β → σ → Prop} (hQ : ∀ a s, Q a s → Q' a s) (h : r.Wp t i Q p s) :
    r.Wp t i Q' p s := by
  induction p generalizing s with
  | ret | fail => exact fun s' hs => hQ _ _ (h s' hs)
  | call c k ih =>
    intro s' hs hinv e s'' a hc hx
    obtain ⟨hinv', hg, ha⟩ := h s' hs hinv e s'' a hc hx
    refine ⟨hinv', hg, ?_⟩
    cases a with
    | ok b => exact ih b ha
    | error e => exact fun s3 h3 => hQ _ _ (ha s3 h3)

/-- One program after another: the second starts from what the first ends in; an error of the first
is one of both. -/
theorem Wp.bind {γ : Type x} {Q : Except ε γ → σ → Prop} {f : β → Prog R ε γ}
    (h : r.Wp t i (fun a s => match a with
      | .ok b => r.Wp t i Q (f b) s
      | .error e => Q (.error e) s) p s) : r.Wp t i Q (p >>= f) s := by
  induction p generalizing s with
  | ret b => exact h s (r.refl t s)
  | fail e => exact h
  | call c k ih =>
    intro s' hs hinv e s'' a hc hx
    obtain ⟨hinv', hg, ha⟩ := h s' hs hinv e s'' a hc hx
    refine ⟨hinv', hg, ?_⟩
    cases a with
    | ok b => exact ih b ha
    | error e => exact ha

/-- A program that keeps the rules, followed by another. -/
theorem Wp.seq {γ : Type x} {P : Except ε β → σ → Prop} {Q : Except ε γ → σ → Prop}
    {f : β → Prog R ε γ} (h : r.Wp t i P p s) (hok : ∀ b s, P (.ok b) s → r.Wp t i Q (f b) s)
    (herr : ∀ e s, P (.error e) s → Q (.error e) s) : r.Wp t i Q (p >>= f) s := by
  refine .bind (h.mono fun a s ha => ?_)
  cases a with
  | ok b => exact hok b s ha
  | error e => exact herr e s ha

/-- One statement: from every state that the others may leave it keeps the rules, its answer
satisfies `P`, and its error is allowed. -/
theorem Wp.stmt {c : S} {Q : Except ε β → σ → Prop} {f : R c → Prog R ε β}
    (h : ∀ s' e s'' a, r.others t s s' → r.inv s' → r.considered t i c e s' →
      sys.exec t i c e s' = some (s'', a) →
      r.inv s'' ∧ (∀ u, u ≠ t → r.others u s' s'') ∧
        match a with
        | .ok b => r.Wp t i Q (f b) s''
        | .error e => ∀ s3, r.others t s'' s3 → Q (.error e) s3) : r.Wp t i Q (.call c f) s :=
  fun s' hs hinv e s'' a hc hx => h s' e s'' a hs hinv hc hx

/-! ## Runs -/

variable (r) in
/-- Every thread keeps the rules and ends in its postcondition. -/
structure Holds (post : Nat → ι → Except ε α → σ → Prop) (w : Pool σ ι R ε α) : Prop where
  inv : r.inv w.shared
  threads : Indexed.All (fun t th => r.Wp t th.input (post t th.input) th.prog w.shared) w.threads

variable {post : Nat → ι → Except ε α → σ → Prop} {w w' : Pool σ ι R ε α}

/-- A thread that has ended did so in its postcondition. -/
theorem Holds.ended (h : r.Holds post w) {a : Except ε α} (ht : w.ended t = some (i, a)) :
    post t i a w.shared := by
  obtain ⟨⟨j, p⟩, hth, hres⟩ := Option.bind_eq_some_iff.1 ht
  obtain ⟨a', hp, heq⟩ := Option.map_eq_some_iff.1 hres
  cases heq
  have hwp := h.threads t _ hth
  cases p with
  | ret | fail => cases hp; exact hwp _ (r.refl _ _)
  | call c k => cases hp

variable (r post) in
/-- What the rules ask of the steps that are not statements of a program. -/
structure Allows (w : Pool σ ι R ε α) (a : Sys.Act ι Ev Env) : Prop where
  start : ∀ i s', a = .start i → sys.start w.threads.length i w.shared = some s' →
    r.inv w.shared → r.inv s' ∧ (∀ u, r.others u w.shared s') ∧
      r.Wp w.threads.length i (post w.threads.length i) (sys.body i) s'
  env : ∀ x s', a = .env x → sys.env x w.shared = some s' → r.inv w.shared →
    r.inv s' ∧ ∀ u, r.others u w.shared s'
  step : ∀ t e i c k, a = .step t e → w.threads[t]? = some ⟨i, .call c k⟩ →
    r.considered t i c e w.shared

/-- One step keeps the threads on course. -/
theorem Holds.step (h : r.Holds post w) {a : Sys.Act ι Ev Env} (hs : sys.step w a = some w')
    (ha : r.Allows post w a) : r.Holds post w' := by
  cases a with
  | start i =>
    obtain ⟨s', hx, rfl⟩ := Option.map_eq_some_iff.1 hs
    obtain ⟨hinv, hothers, hwp⟩ := ha.start i s' rfl hx h.inv
    refine ⟨hinv, ?_⟩
    intro t th hth
    rw [List.getElem?_append] at hth
    split at hth
    · exact (h.threads t th hth).later (hothers t)
    · next hlt =>
      obtain ⟨hlen, rfl⟩ := List.getElem?_eq_some_iff.1 hth
      simp only [List.length_singleton] at hlen
      obtain rfl : t = w.threads.length := by omega
      simpa using hwp
  | env x =>
    obtain ⟨s', hx, rfl⟩ := Option.map_eq_some_iff.1 hs
    obtain ⟨hinv, hothers⟩ := ha.env x s' rfl hx h.inv
    exact ⟨hinv, fun t th hth => (h.threads t th hth).later (hothers t)⟩
  | step t e =>
    obtain ⟨i, c, k, s', a, hth, hx, rfl⟩ := Sys.step_thread hs
    obtain ⟨hinv, hg, hwp⟩ := h.threads t _ hth _ (r.refl _ _) h.inv e s' a
      (ha.step t e i c k rfl hth) hx
    refine ⟨hinv, ?_⟩
    intro u th hu
    rw [List.getElem?_set] at hu
    split at hu
    · next htu =>
      subst htu
      split at hu
      · cases hu
        cases a with
        | ok | error => exact hwp
      · cases hu
    · next htu => exact (h.threads u th hu).later (hg u (.symm htu))

/-- To a thread that is not there a step is one of the others. -/
theorem Holds.step_others (h : r.Holds post w) {a : Sys.Act ι Ev Env}
    (hs : sys.step w a = some w') (ha : r.Allows post w a) (ht : w.threads.length ≤ t) :
    r.others t w.shared w'.shared := by
  cases a with
  | start i =>
    obtain ⟨s', hx, rfl⟩ := Option.map_eq_some_iff.1 hs
    exact (ha.start i s' rfl hx h.inv).2.1 t
  | env x =>
    obtain ⟨s', hx, rfl⟩ := Option.map_eq_some_iff.1 hs
    exact (ha.env x s' rfl hx h.inv).2 t
  | step u e =>
    obtain ⟨i, c, k, s', a, hth, hx, rfl⟩ := Sys.step_thread hs
    have hu : u < w.threads.length := (List.getElem?_eq_some_iff.1 hth).1
    exact (h.threads u _ hth _ (r.refl _ _) h.inv e s' a (ha.step u e i c k rfl hth) hx).2.1 t
      (by omega)

/-- Every run keeps the threads on course. -/
theorem Holds.run (hC : ∀ w a, C w a → r.Allows post w a) (h : Run.Steps sys.step C w as w')
    (hw : r.Holds post w) : r.Holds post w' :=
  h.inv (fun _ a _ hc hs hw => hw.step hs (hC _ a hc)) hw

/-- To a thread that is not there at its end a run is what the others do. -/
theorem Holds.run_others (hC : ∀ w a, C w a → r.Allows post w a) (h : Run.Steps sys.step C w as w')
    (hw : r.Holds post w) (ht : w'.threads.length ≤ t) : r.others t w.shared w'.shared := by
  induction h with
  | nil => exact r.refl _ _
  | cons hc hs hrun ih =>
    have h1 := Sys.step_length hs
    have h2 := Sys.run_length hrun
    exact r.trans _ _ _ _ (hw.step_others hs (hC _ _ hc) (by omega))
      (ih (hw.step hs (hC _ _ hc)) ht)

/-- The postconditions, with one of its own for the thread `t`. -/
def heldTo (post : Nat → ι → Except ε α → σ → Prop) (t : Nat) (Q : Except ε α → σ → Prop) :
    Nat → ι → Except ε α → σ → Prop :=
  fun u i => if u = t then Q else post u i

theorem heldTo_of_ne {Q : Except ε α → σ → Prop} {u : Nat} (h : u ≠ t) :
    heldTo post t Q u i = post u i := if_neg h

theorem heldTo_self {Q : Except ε α → σ → Prop} : heldTo post t Q t i = Q := if_pos rfl

/-- A thread may have a postcondition of its own, proved from the state it starts in. -/
theorem Holds.run_started (hC : ∀ w a, C w a → r.Allows post w a) {w1 : Pool σ ι R ε α}
    {Q : Except ε α → σ → Prop} (hw : r.Holds post w) (hi : C w (.start i))
    (hs : sys.step w (.start i) = some w1) (hQ : r.Wp w.threads.length i Q (sys.body i) w1.shared)
    (h : Run.Steps sys.step C w1 as w') {a : Except ε α}
    (ha : w'.ended w.threads.length = some (i, a)) : Q a w'.shared := by
  have hw0 : r.Holds (heldTo post w.threads.length Q) w := by
    refine ⟨hw.inv, fun t th hth => ?_⟩
    have ht : t < w.threads.length := (List.getElem?_eq_some_iff.1 hth).1
    show r.Wp _ _ (heldTo post w.threads.length Q t th.input) _ _
    rw [heldTo_of_ne (by omega)]
    exact hw.threads t th hth
  have hw1 : r.Holds (heldTo post w.threads.length Q) w1 := by
    refine hw0.step hs ⟨fun j s' hj hx hinv => ?_, (hC w _ hi).env, (hC w _ hi).step⟩
    cases hj
    obtain ⟨s'', hx', rfl⟩ := Option.map_eq_some_iff.1 hs
    cases hx.symm.trans hx'
    obtain ⟨h1, h2, -⟩ := (hC w _ hi).start i s' rfl hx hinv
    refine ⟨h1, h2, ?_⟩
    rw [heldTo_self]
    exact hQ
  have hlen : w.threads.length < w1.threads.length := by
    obtain ⟨s', -, rfl⟩ := Option.map_eq_some_iff.1 hs
    simp
  -- later threads are other threads
  have hend := h.inv
    (I := fun v => r.Holds (heldTo post w.threads.length Q) v ∧
      w.threads.length < v.threads.length) (fun v b v' hb hstep hv => by
      refine ⟨hv.1.step hstep ⟨fun j s' hj hx hinv => ?_, (hC v b hb).env, (hC v b hb).step⟩,
        Nat.lt_of_lt_of_le hv.2 (Sys.step_length hstep)⟩
      rw [heldTo_of_ne (Nat.ne_of_gt hv.2)]
      exact (hC v b hb).start j s' hj hx hinv) ⟨hw1, hlen⟩
  have hpost := hend.1.ended ha
  rwa [heldTo_self] at hpost

end Rules

end
