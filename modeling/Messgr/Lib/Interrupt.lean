import Messgr.Lib.Prog

/-!
# One program, interrupted between two statements

A program that runs alone over a state and may stop after any of its statements. `Prog.Steps` says
how far it comes. `Prog.Always` asks an assertion at every statement the program comes to and a
postcondition where it returns, with a rule for each way of building a program (`Always.stmt`,
`Always.bind`, `Always.collect`). It holds of everything the program comes to (`Always.steps`), and
a program whose statements can always be made comes to its return (`Always.returns`).
-/

universe u v w x y

namespace Prog

variable {S : Type u} {R : S → Type v} {ε : Type w} {α β : Type x} {σ : Type y}

/-- The statement that a program is about to make. -/
def next : Prog R ε α → Option S
  | .call q _ => some q
  | _ => none

/-- What a program has returned. -/
def value : Prog R ε α → Option α
  | .ret a => some a
  | _ => none

theorem value_some {p : Prog R ε α} {a : α} (h : p.value = some a) : p = .ret a := by
  cases p with
  | ret b => cases h; rfl
  | fail e => cases h
  | call q k => cases h

/-- Runs `f` on the elements of a list in order and collects what it returns. -/
def collect {γ : Type*} (f : γ → Prog R ε (Option β)) : List γ → Prog R ε (List β)
  | [] => pure []
  | c :: cs => f c >>= fun b => collect f cs >>= fun bs => pure (b.toList ++ bs)

/-- From `p` in `s`, some statements lead to what is left of it, `p'`, in `s'`. The state after `q`
answered `r` is `exec q r s`, if it may be answered so. -/
inductive Steps (exec : (q : S) → R q → σ → Option σ) : Prog R ε α → σ → Prog R ε α → σ → Prop
  | refl {p : Prog R ε α} {s : σ} : Steps exec p s p s
  | call {q : S} {k : R q → Prog R ε α} {r : R q} {s s1 s' : σ} {p' : Prog R ε α} :
      exec q r s = some s1 → Steps exec (k r) s1 p' s' → Steps exec (.call q k) s p' s'

/-- The assertion `I` holds at every statement of the program, it fails only under `E`, and it
returns in `Q`. -/
def Always (exec : (q : S) → R q → σ → Option σ) (I : S → σ → Prop) (E : Prop)
    (Q : α → σ → Prop) : Prog R ε α → σ → Prop
  | .ret a, s => Q a s
  | .fail _, _ => E
  | .call q k, s => I q s ∧ ∀ r s', exec q r s = some s' → Always exec I E Q (k r) s'

section
variable {exec : (q : S) → R q → σ → Option σ} {I J : S → σ → Prop} {E : Prop}
variable {Q Q' : α → σ → Prop} {p p' : Prog R ε α} {s s' : σ} {f : β → Prog R ε α}

/-- One statement. -/
theorem Always.stmt {q : S} {Q : R q → σ → Prop} {E : Prop} (hI : I q s)
    (hQ : ∀ r s', exec q r s = some s' → Q r s') :
    Always exec I E Q (Prog.stmt q : Prog R ε (R q)) s :=
  ⟨hI, hQ⟩

/-- A weaker assertion and a weaker postcondition. -/
theorem Always.mono (h : Always exec I E Q p s) (hI : ∀ q s, I q s → J q s)
    (hQ : ∀ a s, Q a s → Q' a s) : Always exec J E Q' p s := by
  induction p generalizing s with
  | ret a => exact hQ a s h
  | fail e => exact h
  | call q k ih => exact ⟨hI q s h.1, fun r s' hx => ih r (h.2 r s' hx)⟩

/-- One program after another. -/
theorem Always.bind {p : Prog R ε β} {P : β → σ → Prop} (h : Always exec I E P p s)
    (hf : ∀ b s, P b s → Always exec I E Q (f b) s) : Always exec I E Q (p >>= f) s := by
  induction p generalizing s with
  | ret b => exact hf b s h
  | fail e => exact h
  | call q k ih => exact ⟨h.1, fun r s' hx => ih r (h.2 r s' hx)⟩

/-- A loop: its invariant is about the elements that are left. -/
theorem Always.collect {γ : Type*} {f : γ → Prog R ε (Option β)} {L : List γ → σ → Prop}
    (hf : ∀ c cs s, L (c :: cs) s → Always exec I E (fun _ s' => L cs s') (f c) s) {cs : List γ}
    (h : L cs s) : Always exec I E (fun _ s' => L [] s') (collect f cs) s := by
  induction cs generalizing s with
  | nil => exact h
  | cons c cs ih =>
    exact (hf c cs s h).bind fun _ _ h' => (ih h').bind fun _ _ h'' => h''

/-- What a program comes to keeps it. -/
theorem Always.steps (h : Always exec I E Q p s) (hs : Steps exec p s p' s') :
    Always exec I E Q p' s' := by
  induction hs with
  | refl => exact h
  | call hx _ ih => exact ih (h.2 _ _ hx)

/-- A program whose statements can be made comes to its return or fails. -/
theorem Always.ends (h : Always exec I E Q p s) (hI : ∀ q s, I q s → ∃ r s', exec q r s = some s') :
    (∃ a s', Steps exec p s (.ret a) s' ∧ Q a s') ∨ ∃ e s', Steps exec p s (.fail e) s' ∧ E := by
  induction p generalizing s with
  | ret a => exact .inl ⟨a, s, .refl, h⟩
  | fail e => exact .inr ⟨e, s, .refl, h⟩
  | call q k ih =>
    obtain ⟨r, s1, hx⟩ := hI q s h.1
    rcases ih r (h.2 r s1 hx) with ⟨a, s', hs, hQ⟩ | ⟨e, s', hs, hE⟩
    · exact .inl ⟨a, s', .call hx hs, hQ⟩
    · exact .inr ⟨e, s', .call hx hs, hE⟩

/-- A program whose statements can be made, and that does not fail, returns. -/
theorem Always.returns (h : Always exec I E Q p s) (hE : ¬ E)
    (hI : ∀ q s, I q s → ∃ r s', exec q r s = some s') :
    ∃ a s', Steps exec p s (.ret a) s' ∧ Q a s' :=
  (h.ends hI).resolve_right fun hfail => hE (hfail.elim fun _ h => h.elim fun _ h => h.2)

/-- A program that fails, before another one. -/
theorem Steps.bind_fail {p : Prog R ε β} {e : ε} (h : Steps exec p s (.fail e) s') :
    Steps exec (p >>= f) s (.fail e) s' := by
  generalize hp' : (.fail e : Prog R ε β) = p' at h
  induction h with
  | refl => subst hp'; exact .refl
  | call hx _ ih => exact .call hx (ih hp')

end

/-! ## Programs by their statements -/

/-- Every statement that the program may make satisfies `P`, and its result `Q`, whatever the
answers. -/
def Makes (P : S → Prop) (Q : α → Prop) : Prog R ε α → Prop
  | .ret a => Q a
  | .fail _ => True
  | .call q k => P q ∧ ∀ r, Makes P Q (k r)

section
variable {P : S → Prop} {Q : α → Prop} {p : Prog R ε α}

theorem Makes.stmt {q : S} (h : P q) : Makes P (fun _ => True) (Prog.stmt q : Prog R ε (R q)) :=
  ⟨h, fun _ => trivial⟩

theorem Makes.bind {p : Prog R ε β} {f : β → Prog R ε α} {Q' : β → Prop} (h : Makes P Q' p)
    (hf : ∀ b, Q' b → Makes P Q (f b)) : Makes P Q (p >>= f) := by
  induction p with
  | ret b => exact hf b h
  | fail e => trivial
  | call q k ih => exact ⟨h.1, fun r => ih r (h.2 r)⟩

theorem Makes.mono {P' : S → Prop} (h : Makes P Q p) (hP : ∀ q, P q → P' q) : Makes P' Q p := by
  induction p with
  | ret a => exact h
  | fail e => trivial
  | call q k ih => exact ⟨hP q h.1, fun r => ih r (h.2 r)⟩

/-- What the statements keep holds along the program. -/
theorem Makes.always {exec : (q : S) → R q → σ → Option σ} {I : S → σ → Prop} {K : σ → Prop}
    {s : σ} (h : Makes P Q p) (hI : ∀ q s, P q → K s → I q s)
    (hK : ∀ q r s s', P q → exec q r s = some s' → K s → K s') (hs : K s) :
    Always exec I True (fun a s' => Q a ∧ K s') p s := by
  induction p generalizing s with
  | ret a => exact ⟨h, hs⟩
  | fail e => trivial
  | call q k ih =>
    exact ⟨hI q s h.1 hs, fun r s' hx => ih r (h.2 r) (hK q r s s' h.1 hx hs)⟩

end

/-! ## Fixed answers -/

/-- The first `n` statements with the answers of `ans`. -/
def walk (exec : (q : S) → R q → σ → Option σ) (ans : (q : S) → σ → R q) :
    Nat → Prog R ε α → σ → Option (Prog R ε α × σ)
  | n + 1, .call q k, s => (exec q (ans q s) s).bind (walk exec ans n (k (ans q s)))
  | _, p, s => some (p, s)

theorem walk_steps {exec : (q : S) → R q → σ → Option σ} {ans : (q : S) → σ → R q} {n : Nat}
    {p p' : Prog R ε α} {s s' : σ} (h : walk exec ans n p s = some (p', s')) :
    Steps exec p s p' s' := by
  induction n generalizing p s with
  | zero => cases h; exact .refl
  | succ n ih =>
    cases p with
    | ret | fail => cases h; exact .refl
    | call q k =>
      obtain ⟨s1, hx, h⟩ := Option.bind_eq_some_iff.1 h
      exact .call hx (ih h)

end Prog
