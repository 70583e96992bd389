import Messgr.Quota.Tracker
import Messgr.QuietHours.Window

/-!
# The gate chain of one pass

A pass of `try_process` reads the database at one gate after the other, and the database, the quotas
and the clock may be anything at each of these moments. `Gate.blocks` says what a gate does with the
row, given what it reads; `trace` is the stages of a pass, each with its moment.

`gates_sound`: the provider is called at most once, and after every gate has let the row through; a
pass that ends well does one thing to the outbox row, at its end, and without a provider call it is
what the first gate that blocks says. `Chain` is the invariant.
-/

namespace Messgr

open List Option Nat

/-- The class as its column has it. Source: `src/ingest/model.rs`, `class`. -/
def MsgClass.text : MsgClass → String
  | .transactional => Quota.transactional
  | .marketing => "marketing"
  | .auth => Quota.auth

/-- What the quota of a row is looked up by. -/
def OutboxRow.quotaKey (row : OutboxRow) : Quota.Key :=
  ⟨row.producerId, row.channel, row.msgClass.text⟩

/-- How many gates a pass has behind it; none for the last stages, which write. -/
def Stage.gates : Stage → Option Nat
  | .expiry => some 0
  | .suppression => some 1
  | .verification => some 2
  | .unverified | .consent => some 3
  | .quota => some 4
  | .quietHours => some 5
  | .ciphertexts | .decrypt _ _ | .cancellation => some 6
  | .send | .sending => some 7
  | .terminal _ _ _ | .reschedule _ | .bounded _ _ => none

namespace Gates

/-- What the gates read of the tenant's settings, with `Tz::from_str` as a parameter. Source:
`DispatcherContext`. -/
structure Context where
  enforceVerification : Bool
  quietHoursPolicy : Option QuietHours.QuietHoursPolicy
  defaultTimezone : String
  fromStr : String → Option Zone

/-- Everything outside a pass at the moment of one of its steps. -/
structure Moment where
  db : TenantDb
  tracker : Quota.Tracker
  env : Env := {}
  quietJitter : QuietHours.Jitter := 0

namespace Context

variable (ctx : Context) (row : OutboxRow) (m : Moment)

/-- The settings; a pass reads neither the channels nor the release rate. -/
def config : Config := ⟨[], 0, ctx.enforceVerification, ctx.quietHoursPolicy.isSome⟩

/-- The verdict of the quota gate. -/
def quota : QuotaDecision := (Quota.checkAndRecord m.tracker row.quotaKey m.env.clock).1

/-- The verdict of the quiet hours gate. -/
def window : Option Time :=
  ctx.quietHoursPolicy.bind fun policy =>
    QuietHours.resolveReschedule ctx.fromStr m.env.clock
      ((loadCustomerTimezone m.db row.customerId).getD ctx.defaultTimezone) ctx.defaultTimezone
      policy m.quietJitter

/-- What a step finds, with the verdicts of the two gates that are functions of it. -/
def env : Env := { m.env with quota := quota row m, window := ctx.window row m }

/-- One step of a pass. -/
def step (stage : Stage) : Next × TenantDb := tryProcess ctx.config m.db row (ctx.env row m) stage

end Context

/-! ## What the gates are for -/

/-- What a pass does to the outbox row. -/
inductive Effect
  | terminal (status : Status) (providerRef providerStatus : Option String)
  | reschedule (nextAttemptAt : Time)
deriving DecidableEq

/-- The stage at which it is done. -/
def Effect.stage : Effect → Stage
  | .terminal status providerRef providerStatus => .terminal status providerRef providerStatus
  | .reschedule nextAttemptAt => .reschedule nextAttemptAt

/-- The database after it. -/
def Effect.apply (row : OutboxRow) (m : Moment) : Effect → TenantDb
  | .terminal status providerRef providerStatus =>
    writeTerminal m.db m.env.clock row.createdAt row.commsRequestId row.customerId status
      providerRef providerStatus status
  | .reschedule nextAttemptAt => rescheduleRetry m.db row.commsRequestId nextAttemptAt

/-- A gate that blocks a row for good. -/
def Effect.ends (status : Status) : Effect := .terminal status none none

/-- The gates, in their order. -/
inductive Gate
  | expiry
  | suppression
  | verification
  | consent
  | quota
  | quietHours
  | cancellation
deriving DecidableEq

namespace Gate

/-- The stage that reads for the gate. -/
def stage : Gate → Stage
  | expiry => .expiry
  | suppression => .suppression
  | verification => .verification
  | consent => .consent
  | quota => .quota
  | quietHours => .quietHours
  | cancellation => .cancellation

/-- How many gates are before it. -/
def index : Gate → Nat
  | expiry => 0
  | suppression => 1
  | verification => 2
  | consent => 3
  | quota => 4
  | quietHours => 5
  | cancellation => 6

/-- What the gate does to a row, given what it reads; nothing if it lets it through. -/
def blocks (ctx : Context) (row : OutboxRow) (m : Moment) : Gate → Option Effect
  | expiry => if row.expiresAt.any (· ≤ m.env.clock) then some (.ends .expired) else none
  | suppression =>
    if isSuppressed m.db m.env.now row.createdAt row.commsRequestId then
      some (.ends .suppressedList)
    else none
  | verification =>
    if (row.msgClass = .transactional ∨ row.msgClass = .marketing) ∧
        loadVerifiedAt m.db row.addressId = none ∧ ctx.enforceVerification then
      some (.ends .unverifiedAddress)
    else none
  | consent =>
    if row.msgClass = .marketing ∧ !isConsented m.db row.addressId row.msgClass then
      some (.ends .suppressedConsent)
    else none
  | quota =>
    match Context.quota row m with
    | .defer nextAttemptAt => some (.reschedule nextAttemptAt)
    | _ => none
  | quietHours => (ctx.window row m).map .reschedule
  | cancellation =>
    if isCancelled m.db row.commsRequestId = some true then some (.ends .cancelled) else none

end Gate

/-! ## The stages of a pass -/

/-- A stage that a pass did, and when. -/
structure Done where
  stage : Stage
  moment : Moment

section
variable (ctx : Context) (row : OutboxRow)

/-- The stages of a pass from one on, over the moments that its steps find, as far as they go. -/
def trace : Stage → List Moment → List Done
  | _, [] => []
  | stage, m :: ms =>
    ⟨stage, m⟩ ::
      match (ctx.step row m stage).1 with
      | .goto stage' => trace stage' ms
      | .ended _ => []

/-- What a pass returns, if it does. -/
def result : Stage → List Moment → Option (Except DispatchError Unit)
  | _, [] => none
  | stage, m :: ms =>
    match (ctx.step row m stage).1 with
    | .goto stage' => result stage' ms
    | .ended r => some r

/-- The database after a stage. -/
def Done.after (d : Done) : TenantDb := (ctx.step row d.moment d.stage).2

/-- The gate read, and let the row through. -/
def Passed (g : Gate) (ds : List Done) : Prop :=
  ∃ d ∈ ds, d.stage = g.stage ∧ g.blocks ctx row d.moment = none

/-- The gate read and blocked the row, and those before it let it through. -/
def Blocked (e : Effect) (ds : List Done) : Prop :=
  ∃ g : Gate, (∃ d ∈ ds, d.stage = g.stage ∧ g.blocks ctx row d.moment = some e) ∧
    ∀ g' : Gate, g'.index < g.index → Passed ctx row g' ds

end

/-- The number of provider calls. -/
def calls (ds : List Done) : Nat := ds.countP (·.stage = .send)

@[simp] theorem Gate.gates_stage (g : Gate) : g.stage.gates = some g.index := by
  cases g <;> rfl

theorem Gate.index_lt (g : Gate) : g.index < 7 := by
  cases g <;> decide

@[simp] theorem Effect.gates_stage (e : Effect) : e.stage.gates = none := by
  cases e <;> rfl

/-! ## One step -/

/-- Where a step leads: a gate blocks or lets the row through, something between two gates goes
well, the provider is called, or has answered. -/
inductive GateStep (ctx : Context) (row : OutboxRow) (m : Moment) (stage : Stage) : Stage → Prop
  | blocked {g : Gate} {e : Effect} (at_ : stage = g.stage) (blocks : g.blocks ctx row m = some e) :
      GateStep ctx row m stage e.stage
  | passed {g : Gate} {stage' : Stage} (at_ : stage = g.stage)
      (passes : g.blocks ctx row m = none) (gates : stage'.gates = some (g.index + 1))
      (notCalled : stage' ≠ .sending) : GateStep ctx row m stage stage'
  | between {stage' : Stage} (gates : stage'.gates = stage.gates)
      (notCall : stage ≠ .send ∧ stage ≠ .sending) (notCalled : stage' ≠ .sending) :
      GateStep ctx row m stage stage'
  | called (at_ : stage = .send) : GateStep ctx row m stage .sending
  | answered {e : Effect} (at_ : stage = .sending) : GateStep ctx row m stage e.stage

section
variable {ctx : Context} {row : OutboxRow} {m : Moment} {stage stage' : Stage}
variable {ds before after : List Done} {d : Done} {ms : List Moment} {e : Effect}
variable {r : Except DispatchError Unit}

/-- A gate blocks the row or lets it through. -/
theorem goto_of_gate (g : Gate) (h : (ctx.step row m g.stage).1 = .goto stage') :
    (∃ e, g.blocks ctx row m = some e ∧ stage' = e.stage) ∨
      g.blocks ctx row m = none ∧ stage'.gates = some (g.index + 1) ∧ stage' ≠ .sending := by
  cases g with
  | verification =>
    simp only [Context.step, Gate.stage, tryProcess, Context.config, Next.read,
      Next.databaseError] at h
    cases hverified : loadVerifiedAt m.db row.addressId <;>
      simp only [Gate.blocks, hverified] at h ⊢ <;>
      grind [Effect.stage, Effect.ends, Stage.gates, Gate.index]
  | quietHours =>
    have hnone : ctx.quietHoursPolicy.isSome = false → ctx.window row m = none := by
      rw [Context.window]
      cases ctx.quietHoursPolicy with
      | none => exact fun _ => rfl
      | some policy => exact fun h => by cases h
    simp only [Context.step, Gate.stage, tryProcess, Context.config, Context.env, Next.read,
      Next.databaseError] at h
    cases hwindow : ctx.window row m <;>
      simp only [Gate.blocks, hwindow] at h hnone ⊢ <;>
      grind [Effect.stage, Stage.gates, Gate.index]
  | _ =>
    simp only [Context.step, Gate.stage, tryProcess, Context.env, Next.read,
      Next.databaseError] at h
    simp only [Gate.blocks]
    grind [Effect.stage, Effect.ends, Stage.gates, Gate.index]

/-- Every step from one stage to another is one of these. -/
theorem gateStep_of_goto (hgates : stage.gates ≠ none)
    (h : (ctx.step row m stage).1 = .goto stage') : GateStep ctx row m stage stage' := by
  have hgate (g : Gate) (hg : stage = g.stage) : GateStep ctx row m stage stage' := by
    subst hg
    rcases goto_of_gate g h with ⟨e, hblocks, rfl⟩ | ⟨hpasses, hnext, hsending⟩
    · exact .blocked rfl hblocks
    · exact .passed rfl hpasses hnext hsending
  cases stage with
  | expiry => exact hgate .expiry rfl
  | suppression => exact hgate .suppression rfl
  | verification => exact hgate .verification rfl
  | consent => exact hgate .consent rfl
  | quota => exact hgate .quota rfl
  | quietHours => exact hgate .quietHours rfl
  | cancellation => exact hgate .cancellation rfl
  | send =>
    cases h
    exact .called rfl
  | sending =>
    simp only [Context.step, tryProcess] at h
    split at h
    · cases h
      exact .answered (e := .terminal _ _ _) rfl
    · split at h <;> cases h
      · exact .answered (e := .reschedule _) rfl
      · exact .answered (e := .terminal _ _ _) rfl
  | unverified =>
    simp only [Context.step, tryProcess, Next.databaseError] at h
    split at h <;> cases h
    exact .between rfl ⟨Stage.noConfusion, Stage.noConfusion⟩ Stage.noConfusion
  | ciphertexts =>
    simp only [Context.step, tryProcess, Next.read, Next.databaseError] at h
    split at h
    · split at h <;> cases h
      exact .between rfl ⟨Stage.noConfusion, Stage.noConfusion⟩ Stage.noConfusion
    · cases h
  | decrypt destination payload =>
    simp only [Context.step, tryProcess] at h
    split at h
    · cases h
    · split at h <;> cases h
      exact .between rfl ⟨Stage.noConfusion, Stage.noConfusion⟩ Stage.noConfusion
  | terminal | reschedule | bounded => exact absurd rfl hgates

/-- A stage that does not write does not end a pass well. -/
theorem not_ok_of_gates (hgates : stage.gates ≠ none) :
    (ctx.step row m stage).1 ≠ .ended (.ok ()) := by
  intro h
  cases stage with
  | terminal | reschedule | bounded => exact absurd rfl hgates
  | _ =>
    simp only [Context.step, tryProcess, Next.read, Next.databaseError] at h
    grind

/-- A stage that writes is the last. -/
theorem Effect.not_goto : (ctx.step row m e.stage).1 ≠ .goto stage' := by
  intro h
  cases e <;>
    simp only [Context.step, Effect.stage, tryProcess, Next.write, Next.databaseError] at h <;>
    split at h <;> cases h

/-- What ended well has done to the row what it is for. -/
theorem Effect.applied (h : (ctx.step row m e.stage).1 = .ended (.ok ())) :
    (ctx.step row m e.stage).2 = e.apply row m := by
  cases e <;>
    simp only [Context.step, Effect.stage, tryProcess, Next.write, Next.databaseError] at h ⊢ <;>
    split at h <;> cases h <;> rfl

/-- The stages before the last leave the outbox as it is. -/
theorem outbox_of_gates (hgates : stage.gates ≠ none) :
    (ctx.step row m stage).2.outbox = m.db.outbox := by
  have hstep : PassStep m.db row (ctx.env row m) stage (ctx.step row m stage).1
      (ctx.step row m stage).2 := tryProcess_passStep
  generalize (ctx.step row m stage).1 = next, (ctx.step row m stage).2 = db' at hstep
  cases hstep with
  | goto => rfl
  | gaveUp => rfl
  | recorded => exact insertEvent_outbox
  | wrote | rescheduled | bounded => exact absurd rfl hgates

/-! ## What is behind a pass -/

/-- What a pass has behind it at a stage: the gates, which let the row through, and the provider
call if that is done; or, at a stage that writes, what the write is for. -/
inductive Chain (ctx : Context) (row : OutboxRow) (ds : List Done) : Stage → Prop
  | open_ {stage : Stage} {n : Nat} (gates : stage.gates = some n)
      (passed : ∀ g : Gate, g.index < n → Passed ctx row g ds)
      (calls : calls ds = if stage = .sending then 1 else 0) : Chain ctx row ds stage
  | blocked {e : Effect} (blocked : Blocked ctx row e ds) (calls : calls ds = 0) :
      Chain ctx row ds e.stage
  | answered {e : Effect} (calls : calls ds = 1) : Chain ctx row ds e.stage

theorem Passed.append {g : Gate} (h : Passed ctx row g ds) : Passed ctx row g (ds ++ after) := by
  obtain ⟨d, hd, hpassed⟩ := h
  exact ⟨d, mem_append_left _ hd, hpassed⟩

theorem calls_append : calls (ds ++ [d]) = calls ds + if d.stage = .send then 1 else 0 := by
  simp [calls, countP_append, countP_singleton]

section
variable (hchain : Chain ctx row ds stage)
include hchain

theorem Chain.passed {n : Nat} (hgates : stage.gates = some n)
    (g : Gate) (hg : g.index < n) : Passed ctx row g ds := by
  cases hchain with
  | open_ hgates' hpassed =>
    rw [hgates'] at hgates
    exact hpassed g (Option.some.inj hgates ▸ hg)
  | blocked | answered =>
    rw [Effect.gates_stage] at hgates
    cases hgates

theorem Chain.gates_of_goto (h : (ctx.step row m stage).1 = .goto stage') : stage.gates ≠ none := by
  cases hchain with
  | open_ hgates => exact ne_none_iff_exists'.2 ⟨_, hgates⟩
  | blocked | answered => exact absurd h Effect.not_goto

/-- A pass ends well at a stage that writes, of a gate that blocked or after the provider's answer.
-/
theorem Chain.effect (h : (ctx.step row m stage).1 = .ended (.ok ())) :
    ∃ e : Effect, stage = e.stage ∧ (calls ds = 0 → Blocked ctx row e ds) := by
  cases hchain with
  | open_ hgates =>
    exact absurd h (not_ok_of_gates (ne_none_iff_exists'.2 ⟨_, hgates⟩))
  | blocked hblocked => exact ⟨_, rfl, fun _ => hblocked⟩
  | answered hcalls => exact ⟨_, rfl, fun hzero => absurd (hcalls.symm.trans hzero) one_ne_zero⟩

/-- One step of a pass. -/
theorem Chain.goto
    (h : (ctx.step row m stage).1 = .goto stage') : Chain ctx row (ds ++ [⟨stage, m⟩]) stage' := by
  cases hchain with
  | blocked | answered => exact absurd h Effect.not_goto
  | @open_ _ n hgates hpassed hcalls =>
    have hbehind (g : Gate) (hg : g.index < n) : Passed ctx row g (ds ++ [⟨stage, m⟩]) :=
      (hpassed g hg).append
    have hself : (⟨stage, m⟩ : Done) ∈ ds ++ [⟨stage, m⟩] := mem_append_right _ (.head _)
    cases gateStep_of_goto (by rw [hgates]; exact some_ne_none n) h with
    | @blocked g e hat hblocks =>
      subst hat
      obtain rfl : g.index = n := by simpa using hgates
      refine .blocked ⟨g, ⟨_, hself, rfl, hblocks⟩, hbehind⟩ ?_
      rw [calls_append, hcalls]
      cases g <;> rfl
    | @passed g _ hat hpasses hnext hsending =>
      subst hat
      obtain rfl : g.index = n := by simpa using hgates
      refine .open_ hnext (fun g' hg' => ?_) ?_
      · rcases Nat.lt_succ_iff_lt_or_eq.1 hg' with hlt | heq
        · exact hbehind g' hlt
        · obtain rfl : g' = g := by cases g' <;> cases g <;> first | rfl | cases heq
          exact ⟨_, hself, rfl, hpasses⟩
      · rw [calls_append, hcalls, if_neg hsending]
        cases g <;> rfl
    | between hsame hsend hsending =>
      refine .open_ (hsame.trans hgates) hbehind ?_
      rw [calls_append, hcalls, if_neg hsending, if_neg hsend.1, if_neg hsend.2]
    | called hat =>
      subst hat
      obtain rfl : 7 = n := Option.some.inj hgates
      refine .open_ rfl hbehind ?_
      rw [calls_append, hcalls]
      rfl
    | answered hat =>
      subst hat
      refine .answered ?_
      rw [calls_append, hcalls]
      rfl

end

/-! ## Whole passes -/

theorem trace_cons_goto (h : (ctx.step row m stage).1 = .goto stage') :
    trace ctx row stage (m :: ms) = ⟨stage, m⟩ :: trace ctx row stage' ms := by
  rw [trace, h]

theorem trace_cons_ended (h : (ctx.step row m stage).1 = .ended r) :
    trace ctx row stage (m :: ms) = [⟨stage, m⟩] := by
  rw [trace, h]

/-- At every stage of a pass, and none of those before it writes. -/
theorem Chain.of_trace (hchain : Chain ctx row ds stage)
    (h : trace ctx row stage ms = before ++ d :: after) :
    Chain ctx row (ds ++ before) d.stage ∧ ∀ d' ∈ before, d'.stage.gates ≠ none := by
  induction ms generalizing ds stage before with
  | nil => cases before <;> cases h
  | cons m ms ih =>
    cases before with
    | nil =>
      obtain ⟨rfl, -⟩ := List.cons.inj h
      rw [append_nil]
      exact ⟨hchain, fun d' hd' => absurd hd' not_mem_nil⟩
    | cons d' before =>
      cases hstep : (ctx.step row m stage).1 with
      | ended r =>
        rw [trace_cons_ended hstep] at h
        obtain ⟨-, htail⟩ := List.cons.inj h
        cases before <;> cases htail
      | goto stage' =>
        rw [trace_cons_goto hstep] at h
        obtain ⟨rfl, htail⟩ := List.cons.inj h
        obtain ⟨hat, hbefore⟩ := ih (hchain.goto hstep) htail
        rw [append_cons]
        refine ⟨hat, fun d' hd' => ?_⟩
        rcases mem_cons.1 hd' with rfl | hd'
        · exact hchain.gates_of_goto hstep
        · exact hbefore d' hd'

theorem Chain.calls_le (hchain : Chain ctx row ds stage) : calls ds ≤ 1 := by
  cases hchain with
  | open_ _ _ hcalls =>
    rw [hcalls]
    split <;> decide
  | blocked _ hcalls => exact hcalls.trans_le (zero_le 1)
  | answered hcalls => exact hcalls.le

/-- A whole pass calls the provider at most once. -/
theorem Chain.calls_trace_le (hchain : Chain ctx row ds stage) :
    calls (ds ++ trace ctx row stage ms) ≤ 1 := by
  induction ms generalizing ds stage with
  | nil =>
    rw [trace, append_nil]
    exact hchain.calls_le
  | cons m ms ih =>
    cases hstep : (ctx.step row m stage).1 with
    | goto stage' =>
      rw [trace_cons_goto hstep, append_cons]
      exact ih (hchain.goto hstep)
    | ended r =>
      have hsend : stage ≠ .send := by
        rintro rfl
        cases hstep
      rw [trace_cons_ended hstep, calls_append, if_neg hsend]
      exact hchain.calls_le

/-- A pass that returns has a last stage, which returns. -/
theorem trace_of_result (h : result ctx row stage ms = some r) :
    ∃ before d, trace ctx row stage ms = before ++ [d] ∧
      (ctx.step row d.moment d.stage).1 = .ended r := by
  induction ms generalizing stage with
  | nil => cases h
  | cons m ms ih =>
    rw [result] at h
    cases hstep : (ctx.step row m stage).1 with
    | ended r' =>
      rw [hstep] at h
      cases h
      exact ⟨[], ⟨stage, m⟩, trace_cons_ended hstep, hstep⟩
    | goto stage' =>
      rw [hstep] at h
      obtain ⟨before, d, htrace, hend⟩ := ih h
      exact ⟨⟨stage, m⟩ :: before, d, by rw [trace_cons_goto hstep, htrace]; rfl, hend⟩

/-- Before the first stage. -/
theorem Chain.start : Chain ctx row [] .expiry :=
  .open_ rfl (fun _ hg => absurd hg (not_lt_zero _)) rfl

end

/-- One pass over a claimed row, whatever the database, the quotas and the clock are at each of its
steps. The provider is called at most once, and every gate has read and let the row through before.
If the pass returns `Ok`, its last stage is a terminal write or a reschedule, and no stage before
has touched the outbox; if it does so without a provider call, that is the effect of the first gate
in the order whose read blocked. -/
theorem gates_sound (ctx : Context) (row : OutboxRow) (ms : List Moment) :
    calls (trace ctx row .expiry ms) ≤ 1 ∧
    (∀ before m after, trace ctx row .expiry ms = before ++ ⟨.send, m⟩ :: after →
      ∀ g, Passed ctx row g before) ∧
    (result ctx row .expiry ms = some (.ok ()) →
      ∃ before d, ∃ e : Effect, trace ctx row .expiry ms = before ++ [d] ∧ d.stage = e.stage ∧
        d.after ctx row = e.apply row d.moment ∧
        (∀ d' ∈ before, (d'.after ctx row).outbox = d'.moment.db.outbox) ∧
        (calls (trace ctx row .expiry ms) = 0 → Blocked ctx row e before)) := by
  refine ⟨?_, fun before m after htrace g => ?_, fun hok => ?_⟩
  · exact Chain.start.calls_trace_le
  · have hchain := (Chain.start.of_trace htrace).1
    exact hchain.passed rfl g g.index_lt
  · obtain ⟨before, d, htrace, hend⟩ := trace_of_result hok
    obtain ⟨hchain, hbefore⟩ := Chain.start.of_trace htrace
    obtain ⟨e, he, hblocked⟩ := hchain.effect hend
    refine ⟨before, d, e, htrace, he, ?_, fun d' hd' => outbox_of_gates (hbefore d' hd'), ?_⟩
    · rw [Done.after, he]
      exact Effect.applied (he ▸ hend)
    · intro hcalls
      rw [htrace, calls_append] at hcalls
      exact hblocked (Nat.eq_zero_of_add_eq_zero_right hcalls)

end Gates

end Messgr
