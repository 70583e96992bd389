import Messgr.Tenant.ProvisionSteps

/-!
# The credential of a new tenant

Calls of `provision_tenant` with the same inputs, one after another, each of which may fail at any
step. A SecretID is minted if the row was not there before the call, and the row is inserted before
the steps that can fail: after a call that inserted the row and failed, the first call that returns
carries no SecretID (`credential_not_delivered`). As long as the call that inserts the row does not
fail, the first call that returns carries one and no later call does (`first_provision_carries`).
-/

namespace Messgr.Provision

open Option

/-- Calls of `provision_tenant` with the same inputs. -/
abbrev Repeated := Serial Registry Unit Stmt.Answer ProvisionError ProvisionOutcome

namespace Repeated

/-- One act: a call starts, its next statement is made, or it ends. -/
def step (inp : Inputs) : Repeated → Serial.Act Unit Stmt.Answer → Option Repeated :=
  Serial.step (fun _ => provisionTenant inp) exec

/-- What the calls that returned `Ok` returned, in order. -/
def outcomes (w : Repeated) : List ProvisionOutcome := w.ended.filterMap (·.2)

/-- The condition: the call that inserts the tenant's row does not end before it returns. -/
def carriesOn (inp : Inputs) (w : Repeated) : Serial.Act Unit Stmt.Answer → Bool
  | .stop => w.current.all fun c => c.prog.value.isSome || c.start.registered inp.slug ||
      !w.shared.registered inp.slug
  | _ => true

section
variable {inp : Inputs} {w w' : Repeated} {a : Serial.Act Unit Stmt.Answer}

/-- What a call comes to, by the state it started in. -/
abbrev Holds (inp : Inputs) (w : Repeated) : Prop :=
  Serial.Holds exec (fun _ => Provisions inp) (fun _ s0 outcome s =>
    outcome.vaultWrappedSecretId.isSome = (!s0.registered inp.slug) ∧
      s.registered inp.slug = true) w

/-- Before the first call that returns: no call has started with the tenant registered, and without
a call it is not registered. -/
structure Undelivered (inp : Inputs) (w : Repeated) : Prop where
  outcomes : w.outcomes = []
  idle : w.current = none → w.shared.registered inp.slug = false
  calls : ∀ c, w.current = some c → c.start.registered inp.slug = false

/-- After it: it carried a SecretID, the calls since then did not, and calls start with the tenant
registered. -/
structure Delivered (inp : Inputs) (w : Repeated) : Prop where
  outcomes : ∃ o os, w.outcomes = o :: os ∧ o.vaultWrappedSecretId.isSome = true ∧
    ∀ o' ∈ os, o'.vaultWrappedSecretId = none
  registered : w.shared.registered inp.slug = true
  calls : ∀ c, w.current = some c → c.start.registered inp.slug = true

theorem outcomes_ended (s : Registry) (c : Option (Serial.Call Registry Unit Stmt.Answer
    ProvisionError ProvisionOutcome)) (o : Option ProvisionOutcome) :
    outcomes ⟨s, c, w.ended ++ [((), o)]⟩ = w.outcomes ++ o.toList := by
  cases o with
  | none => simp [outcomes]
  | some o => simp [outcomes]

/-- A step leaves the SecretID undelivered, or delivers it. -/
theorem Undelivered.step (h : Undelivered inp w) (hw : Holds inp w) (hc : carriesOn inp w a = true)
    (hs : step inp w a = some w') : Undelivered inp w' ∨ Delivered inp w' := by
  cases a with
  | start i =>
    obtain ⟨hcur, rfl⟩ := Serial.step_start hs
    refine .inl ⟨h.outcomes, nofun, fun c hc' => ?_⟩
    cases hc'
    exact h.idle hcur
  | answer q r =>
    obtain ⟨c, k, s, hcur, -, -, rfl⟩ := Serial.step_answer hs
    refine .inl ⟨h.outcomes, nofun, fun c' hc' => ?_⟩
    cases hc'
    exact h.calls c hcur
  | stop =>
    obtain ⟨c, hcur, rfl⟩ := Serial.step_stop hs
    have hstart := h.calls c hcur
    cases hv : c.prog.value with
    | none =>
      simp only [carriesOn, hcur, all_some, hv, hstart] at hc
      refine .inl ⟨?_, fun _ => by simpa using hc, nofun⟩
      exact (outcomes_ended _ _ _).trans (by rw [h.outcomes]; rfl)
    | some o =>
      obtain ⟨hcarries, hreg⟩ := hw.value hcur hv
      rw [hstart] at hcarries
      refine .inr ⟨⟨o, [], ?_, hcarries, nofun⟩, hreg, nofun⟩
      exact (outcomes_ended _ _ _).trans (by rw [h.outcomes]; rfl)

/-- A SecretID that was delivered is so only once. -/
theorem Delivered.step (h : Delivered inp w) (hw : Holds inp w) (hs : step inp w a = some w') :
    Delivered inp w' := by
  cases a with
  | start i =>
    obtain ⟨-, rfl⟩ := Serial.step_start hs
    refine ⟨h.outcomes, h.registered, fun c hc => ?_⟩
    cases hc
    exact h.registered
  | answer q r =>
    obtain ⟨c, k, s, hcur, -, hx, rfl⟩ := Serial.step_answer hs
    refine ⟨h.outcomes, exec_registered hx h.registered, fun c' hc' => ?_⟩
    cases hc'
    exact h.calls c hcur
  | stop =>
    obtain ⟨c, hcur, rfl⟩ := Serial.step_stop hs
    obtain ⟨o, os, hos, ho, hnone⟩ := h.outcomes
    have hstart := h.calls c hcur
    refine ⟨⟨o, os ++ c.prog.value.toList, ?_, ho, fun o' ho' => ?_⟩, h.registered, nofun⟩
    · exact (outcomes_ended _ _ _).trans (by rw [hos]; rfl)
    · rcases List.mem_append.1 ho' with ho' | ho'
      · exact hnone o' ho'
      · have hcarries := (hw.value hcur (mem_toList.1 ho')).1
        rw [hstart] at hcarries
        exact isNone_iff_eq_none.1 (by simpa using hcarries)

end

end Repeated

open Repeated in
/-- In every run for a new slug in which the call that inserts the row does not fail, the first call
that returns carries a wrapped SecretID and no later one does. -/
theorem first_provision_carries (inp : Inputs) (s0 : Registry)
    (hnew : s0.registered inp.slug = false) (as : List (Serial.Act Unit Stmt.Answer))
    (w : Repeated) (h : Run.Steps (step inp) (carriesOn inp · ·) (Serial.idle s0) as w) :
    ∀ o os, w.outcomes = o :: os →
      o.vaultWrappedSecretId.isSome = true ∧ ∀ o' ∈ os, o'.vaultWrappedSecretId = none := by
  have hbody : ∀ (_ : Unit) s, Prog.Always exec (Provisions inp s) True _ (provisionTenant inp) s :=
    fun _ => always_provisionTenant inp
  have hw : Undelivered inp w ∨ Delivered inp w :=
    h.inv_of (I := fun v => Undelivered inp v ∨ Delivered inp v) (J := Holds inp)
      (fun _ _ _ _ hs hv => hv.step hbody hs)
      (fun v a v' hc hs hv hi => hi.elim (fun hi => hi.step hv hc hs)
        fun hi => .inr (hi.step hv hs))
      (Serial.Holds.idle s0) (.inl ⟨rfl, fun _ => hnew, nofun⟩)
  intro o os hos
  rcases hw with hw | hw
  · rw [hw.outcomes] at hos
    cases hos
  · obtain ⟨o1, os1, hos1, ho, hnone⟩ := hw.outcomes
    rw [hos] at hos1
    cases hos1
    exact ⟨ho, hnone⟩

/-- The acts of calls that stop after the given numbers of sample answers. -/
def Repeated.acts (calls : List Nat) : List (Serial.Act Unit Stmt.Answer) :=
  Serial.calls (fun _ => provisionTenant sampleInputs) exec sampleReply (calls.map ((), ·))
    (Serial.idle Registry.empty)

open Repeated in
/-- A call that fails before it inserts the row, one that returns, one that fails later and one more
that returns. -/
theorem first_provision_carries_fresh :
    ∃ w, Run.Steps (step sampleInputs) (carriesOn sampleInputs · ·) (Serial.idle Registry.empty)
        (acts [2, 40, 10, 40]) w ∧
      ∃ o o', w.outcomes = [o, o'] ∧ o.vaultWrappedSecretId.isSome = true ∧
        o'.vaultWrappedSecretId = none := by
  obtain ⟨w, h, hp⟩ := Run.Steps.exists_of_checked (step sampleInputs) (carriesOn sampleInputs)
    (Serial.idle Registry.empty) (acts [2, 40, 10, 40])
    (fun w => w.outcomes.length = 2) (by decide +kernel)
  obtain ⟨o, o', ho⟩ := List.length_eq_two.1 (of_decide_eq_true hp)
  obtain ⟨h1, h2⟩ := first_provision_carries sampleInputs Registry.empty rfl _ w h o [o'] ho
  exact ⟨w, h, o, o', ho, h1, h2 o' List.mem_cons_self⟩

open Repeated in
/-- The first call fails right after it has inserted the row: the next one returns without a
SecretID. -/
theorem credential_not_delivered :
    ∃ w, Run.Steps (step sampleInputs) Run.Any (Serial.idle Registry.empty) (acts [4, 40]) w ∧
      w.outcomes = [⟨⟨1⟩, "role", none⟩] := by
  obtain ⟨w, h, hp⟩ := Run.Steps.exists_of_exec (step sampleInputs) (Serial.idle Registry.empty)
    (acts [4, 40]) (fun w => w.outcomes = [⟨⟨1⟩, "role", none⟩]) (by decide +kernel)
  exact ⟨w, h, of_decide_eq_true hp⟩

end Messgr.Provision
