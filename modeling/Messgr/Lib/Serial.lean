import Messgr.Lib.Interrupt

/-!
# Calls one after another

A system that makes one call at a time. A call runs a program over the shared state, statement by
statement, and may stop after any of them: then it has failed, with the effects it had so far
(`Serial.step`). What is proved along the program of a call, with `Prog.Always` and from the state
the call starts in, is kept by every step (`Serial.Holds`).
-/

universe u v w x

section
variable {S : Type u} {R : S → Type v} {ε : Type w} {α : Type x}

/-- The program after its statement `q` is answered `r`. -/
def Prog.answer [DecidableEq S] (p : Prog R ε α) (q : S) (r : R q) : Option (Prog R ε α) :=
  match p with
  | .call q' k => if h : q = q' then some (k (h ▸ r)) else none
  | _ => none

theorem Prog.answer_some [DecidableEq S] {p p' : Prog R ε α} {q : S} {r : R q}
    (h : p.answer q r = some p') : ∃ k, p = .call q k ∧ p' = k r := by
  cases p with
  | ret a => cases h
  | fail e => cases h
  | call q' k =>
    simp only [Prog.answer] at h
    split at h
    · next hq =>
      subst hq
      exact ⟨k, rfl, (Option.some.inj h).symm⟩
    · cases h

end

/-- A call under way: its input, the state it started in, and what is left of it. -/
structure Serial.Call (σ ι : Type*) {S : Type u} (R : S → Type v) (ε : Type w) (α : Type x) where
  input : ι
  start : σ
  prog : Prog R ε α

/-- The shared state, the call under way, and the ended calls with what they returned. -/
structure Serial (σ ι : Type*) {S : Type u} (R : S → Type v) (ε : Type w) (α : Type x) where
  shared : σ
  current : Option (Serial.Call σ ι R ε α)
  ended : List (ι × Option α)

/-- A call starts, its next statement is answered, or it ends. -/
inductive Serial.Act (ι : Type*) {S : Type u} (R : S → Type v)
  | start (i : ι)
  | answer (q : S) (r : R q)
  | stop

namespace Serial

variable {σ ι : Type*} {S : Type u} {R : S → Type v} {ε : Type w} {α : Type x}

/-- The state without calls. -/
def idle (s : σ) : Serial σ ι R ε α := ⟨s, none, []⟩

section
variable [DecidableEq S] (body : ι → Prog R ε α) (exec : (q : S) → R q → σ → Option σ)

/-- What an act does. -/
def step (w : Serial σ ι R ε α) : Act ι R → Option (Serial σ ι R ε α)
  | .start i =>
    match w.current with
    | none => some { w with current := some ⟨i, w.shared, body i⟩ }
    | some _ => none
  | .answer q r =>
    match w.current with
    | none => none
    | some c =>
      (c.prog.answer q r).bind fun p => (exec q r w.shared).map fun s =>
        { w with shared := s, current := some { c with prog := p } }
  | .stop =>
    match w.current with
    | none => none
    | some c => some { w with current := none, ended := w.ended ++ [(c.input, c.prog.value)] }

end

section
variable [DecidableEq S] {body : ι → Prog R ε α} {exec : (q : S) → R q → σ → Option σ}
variable {w w' : Serial σ ι R ε α}

theorem step_start {i : ι} (h : step body exec w (.start i) = some w') :
    w.current = none ∧ w' = { w with current := some ⟨i, w.shared, body i⟩ } := by
  simp only [step] at h
  split at h
  · next hc => exact ⟨hc, (Option.some.inj h).symm⟩
  · cases h

theorem step_answer {q : S} {r : R q} (h : step body exec w (.answer q r) = some w') :
    ∃ c k s, w.current = some c ∧ c.prog = .call q k ∧ exec q r w.shared = some s ∧
      w' = { w with shared := s, current := some { c with prog := k r } } := by
  simp only [step] at h
  split at h
  · cases h
  · next c hc =>
    obtain ⟨p, hp, h⟩ := Option.bind_eq_some_iff.1 h
    obtain ⟨s, hs, rfl⟩ := Option.map_eq_some_iff.1 h
    obtain ⟨k, hk, rfl⟩ := Prog.answer_some hp
    exact ⟨c, k, s, hc, hk, hs, rfl⟩

theorem step_stop (h : step body exec w .stop = some w') : ∃ c, w.current = some c ∧
    w' = { w with current := none, ended := w.ended ++ [(c.input, c.prog.value)] } := by
  simp only [step] at h
  split at h
  · cases h
  · next c hc => exact ⟨c, hc, (Option.some.inj h).symm⟩

end

/-! ## Fixed answers -/

section
variable [DecidableEq S] (body : ι → Prog R ε α) (exec : (q : S) → R q → σ → Option σ)
variable (reply : (q : S) → σ → R q)

/-- The acts by which the call under way makes at most `n` statements, answered by `reply`. -/
def follow : Nat → Serial σ ι R ε α → List (Act ι R)
  | 0, _ => []
  | n + 1, w =>
    match w.current with
    | some ⟨_, _, .call q _⟩ =>
      .answer q (reply q w.shared) ::
        (step body exec w (.answer q (reply q w.shared))).elim [] (follow n)
    | _ => []

/-- The acts of calls one after another, each cut off after the given number of statements. -/
def calls : List (ι × Nat) → Serial σ ι R ε α → List (Act ι R)
  | [], _ => []
  | (i, n) :: rest, w =>
    let as := .start i ::
      (step body exec w (.start i)).elim [] (follow body exec reply n) ++ [.stop]
    as ++ (Run.exec (step body exec) w as).elim [] (calls rest)

end

/-! ## What holds along a call holds in every run -/

section
variable (exec : (q : S) → R q → σ → Option σ)
variable (I : ι → σ → S → σ → Prop) (Q : ι → σ → α → σ → Prop)
variable {c : Call σ ι R ε α}

/-- The call under way keeps to the assertion and postcondition of its input and the state it
started in. -/
def Holds (w : Serial σ ι R ε α) : Prop :=
  ∀ c, w.current = some c →
    Prog.Always exec (I c.input c.start) True (Q c.input c.start) c.prog w.shared

variable {exec I Q}

theorem Holds.idle (s : σ) : Holds exec I Q (idle s : Serial σ ι R ε α) := nofun

variable {w w' : Serial σ ι R ε α}

/-- The assertion at a statement. -/
theorem Holds.at (h : Holds exec I Q w) {q : S} {k : R q → Prog R ε α} (hc : w.current = some c)
    (hk : c.prog = .call q k) : I c.input c.start q w.shared := by
  have hat := h c hc
  rw [hk] at hat
  exact hat.1

/-- The postcondition at a return. -/
theorem Holds.value (h : Holds exec I Q w) {a : α} (hc : w.current = some c)
    (hv : c.prog.value = some a) : Q c.input c.start a w.shared := by
  have hat := h c hc
  rw [Prog.value_some hv] at hat
  exact hat

variable [DecidableEq S] {body : ι → Prog R ε α}

/-- One step. -/
theorem Holds.step (hbody : ∀ i s, Prog.Always exec (I i s) True (Q i s) (body i) s)
    {a : Act ι R} (h : Holds exec I Q w) (hs : step body exec w a = some w') :
    Holds exec I Q w' := by
  intro c hc
  cases a with
  | start i =>
    obtain ⟨-, rfl⟩ := step_start hs
    cases hc
    exact hbody i w.shared
  | answer q r =>
    obtain ⟨c0, k, s, hc0, hk, hx, rfl⟩ := step_answer hs
    cases hc
    have hat := h c0 hc0
    rw [hk] at hat
    exact hat.2 r s hx
  | stop =>
    obtain ⟨c0, -, rfl⟩ := step_stop hs
    cases hc

/-- What is known of a call and the state that it starts in. -/
def Started (P : ι → σ → Prop) (w : Serial σ ι R ε α) : Prop :=
  ∀ c, w.current = some c → P c.input c.start

/-- Every step keeps what calls start with. -/
theorem Started.step {P : ι → σ → Prop} {a : Act ι R} (h : w.Started P)
    (ha : ∀ i, a = .start i → P i w.shared) (hs : step body exec w a = some w') : w'.Started P := by
  intro c hc
  cases a with
  | start i =>
    obtain ⟨-, rfl⟩ := step_start hs
    cases hc
    exact ha i rfl
  | answer q r =>
    obtain ⟨c0, k, s, hc0, -, -, rfl⟩ := step_answer hs
    cases hc
    exact h c0 hc0
  | stop =>
    obtain ⟨c0, -, rfl⟩ := step_stop hs
    cases hc

end

end Serial
