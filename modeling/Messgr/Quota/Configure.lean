import Messgr.Lib.Indexed
import Messgr.Lib.Run
import Messgr.Quota.Tracker

/-!
# Quotas never withhold transactional or auth traffic

The rows of `producer_quota` and `producer_quota_override` are written by the control CLI
(`src/producer_quota/configure.rs`) and by the admin panel (`src/query_api/admin.rs`), which repeats
the checks of the CLI. The tables have no constraint of their own, and the gate trusts the
enforcement that it finds. A call is a state machine with one transition for each statement, and so
is the refresh of the tracker.

`transactional_not_deferred`: whatever is written, refreshed and rebuilt, neither class is deferred.
A row with hard enforcement for transactional traffic is never about to be written (`Pc.Legal`), and
an override does not change how a limit is enforced.
-/

namespace Messgr.Quota

open Option List

/-! ## The tables -/

/-- A row of `producer_quota`, and the inputs of one. Source: `0017_producer_quota.sql`;
`src/producer_quota/model.rs`, `ProducerQuota`, `ProducerQuotaInput`. -/
structure ProducerQuota where
  producerId : Uuid
  channel : String
  msgClass : String
  perMinute : Option Int
  perDay : Option Int
  enforcement : String
deriving DecidableEq

/-- The primary key of `producer_quota`. -/
abbrev ProducerQuota.key (q : ProducerQuota) : Key := ⟨q.producerId, q.channel, q.msgClass⟩

/-- A row of `producer_quota_override`. -/
structure ProducerQuotaOverride where
  id : Uuid
  producerId : Uuid
  channel : String
  msgClass : String
  perDay : Int
  validFrom : Time
  validTo : Time
  approvedBy : String
  reason : String
deriving DecidableEq

abbrev ProducerQuotaOverride.key (o : ProducerQuotaOverride) : Key :=
  ⟨o.producerId, o.channel, o.msgClass⟩

structure Tables where
  producerQuota : Table ProducerQuota ProducerQuota.key
  producerQuotaOverride : Table ProducerQuotaOverride ProducerQuotaOverride.id

/-- The tables of a new tenant. -/
def Tables.empty : Tables := ⟨∅, ∅⟩

/-- Source: `src/producer_quota/repo.rs`. -/
def Tables.loadActiveOverrides (t : Tables) (now : Time) : List ProducerQuotaOverride :=
  t.producerQuotaOverride.rows.filter fun o => o.validFrom ≤ now && now < o.validTo

/-! ## Calls -/

/-- What a call is to write: a quota, or an override. -/
inductive Values
  | quota (channel msgClass : String) (perMinute perDay : Option Int) (enforcement : String)
  | override (channel msgClass : String) (perDay : Int) (validFrom validTo : Time)
      (approvedBy reason : String)
deriving DecidableEq

/-- Source: `set_producer_quota`, `illegal`; `add_producer_quota_override`, `rejection`. The panel
has the same checks. -/
def Values.illegal : Values → Bool
  | .quota _ msgClass _ _ enforcement =>
    msgClass = auth || (msgClass = transactional && enforcement = hard)
  | .override _ msgClass perDay validFrom validTo _ _ =>
    msgClass = auth || validTo ≤ validFrom || perDay ≤ 0

/-- The outcome that an audit record names. -/
inductive Outcome
  | created
  | updated
  | idempotent
  | rejected
deriving DecidableEq

/-- Why a call of the CLI found nobody to write for. -/
inductive Unknown
  | tenantSlug
  | producerName
deriving DecidableEq

/-- A record of `platform_audit`. Source: `audit_set`, `audit_override_add`,
`resolve_tenant_and_producer`. -/
inductive AuditRecord
  | unknown (actor : String) (why : Unknown)
  | write (actor : String) (producerId : Uuid) (values : Values) (outcome : Outcome)
deriving DecidableEq

/-- How a call ends. -/
inductive Result
  | done (outcome : Outcome)
  | rejected
  | database
  | badRequest
  | forbidden
deriving DecidableEq

/-- Where a call is: before the statement that it is named after. -/
inductive Pc
  | resolve (values : Values)
  | auditUnknown (why : Unknown)
  | auditRejected (producerId : Uuid) (values : Values)
  | loadOne (input : ProducerQuota)
  | upsert (input : ProducerQuota) (outcome : Outcome)
  | insertOverride (producerId : Uuid) (values : Values)
  | audit (producerId : Uuid) (values : Values) (outcome : Outcome)
  | ended (result : Result)
deriving DecidableEq

/-- A call of the CLI or of the panel. -/
structure Call where
  panel : Bool
  actor : String
  pc : Pc
deriving DecidableEq

/-- The fields of a form of the panel, as they are sent. Source: `SetQuotaForm`,
`AddOverrideForm`. -/
inductive Form
  | quota (channel msgClass : String) (perMinute perDay : Option String) (enforcement : String)
  | override (channel msgClass : String) (perDay : Int)
      (validFrom validTo approvedBy reason : String)

/-- `str::parse::<i32>` and the formats of `chrono` that `parse_form_datetime` accepts. -/
structure FormParsers where
  parseI32 : String → Option Int
  parseFormDatetime : String → Option Time

/-- What the environment decides about a statement: how it ends, whom a slug and a name resolve to,
and the id that `Uuid::new_v4` draws. -/
structure Event where
  reply : Reply := .ok
  resolved : Except Unknown Uuid := .ok ⟨0⟩
  newId : Uuid := ⟨0⟩

section
variable (parse : FormParsers)

/-- A limit of a form: none for an empty field. -/
def Form.limit : Option String → Option (Option Int)
  | none => some none
  | some text => if text = "" then some none else (parse.parseI32 text).map some

/-- What a form asks to write, if its fields can be read. -/
def Form.values : Form → Option Values
  | .quota channel msgClass perMinute perDay enforcement =>
    (Form.limit parse perMinute).bind fun m => (Form.limit parse perDay).map fun d =>
      .quota channel msgClass m d enforcement
  | .override channel msgClass perDay validFrom validTo approvedBy reason =>
    (parse.parseFormDatetime validFrom).bind fun f =>
      (parse.parseFormDatetime validTo).map fun t =>
        .override channel msgClass perDay f t approvedBy reason

end

/-- Where a call goes once it knows the producer. -/
def Values.start (producerId : Uuid) (v : Values) : Pc :=
  if v.illegal then .auditRejected producerId v
  else
    match v with
    | .quota channel msgClass perMinute perDay enforcement =>
      .loadOne ⟨producerId, channel, msgClass, perMinute, perDay, enforcement⟩
    | .override _ _ _ _ _ _ _ => .insertOverride producerId v

/-- The values of an input. -/
def ProducerQuota.values (q : ProducerQuota) : Values :=
  .quota q.channel q.msgClass q.perMinute q.perDay q.enforcement

/-- Source: `set_producer_quota_inner`, `outcome`. -/
def outcomeOf (existing : Option ProducerQuota) (input : ProducerQuota) : Outcome :=
  match existing with
  | none => .created
  | some row => if input = row then .idempotent else .updated

/-- Source: `insert_override`. -/
def Tables.insertOverride (t : Tables) (id producerId : Uuid) : Values → Option Tables
  | .quota _ _ _ _ _ => none
  | .override channel msgClass perDay validFrom validTo approvedBy reason =>
    (t.producerQuotaOverride.insert? ⟨id, producerId, channel, msgClass, perDay, validFrom, validTo,
      approvedBy, reason⟩).map fun o => { t with producerQuotaOverride := o }

/-- The tables, the audit records and where a call is. -/
abbrev Effect := Tables × List AuditRecord × Pc

section
variable (t : Tables) (log : List AuditRecord) (e : Event)

/-- A statement that writes, and where it leads; a lost reply is one whose statement took effect. -/
def write (t' : Tables) (log' : List AuditRecord) (next failed : Pc) : Effect :=
  match e.reply with
  | .ok => (t', log', next)
  | .failed => (t, log, failed)
  | .lost => (t', log', failed)

/-- One statement of a call. The panel goes on when an audit record of its own fails, but not when
the one of `set_producer_quota_inner` does. Source: `configure.rs`, `set_producer_quota_inner`,
`add_producer_quota_override`; `admin.rs`, `set_producer_quota`, `add_quota_override`. -/
def Call.exec (call : Call) : Option Effect :=
  match call.pc with
  | .resolve v => some <|
      match e.reply, e.resolved with
      | .ok, .ok producerId => (t, log, v.start producerId)
      | .ok, .error why => (t, log, .auditUnknown why)
      | _, _ => (t, log, .ended .database)
  | .auditUnknown why => some <|
      write t log e t (log ++ [.unknown call.actor why]) (.ended .rejected) (.ended .database)
  | .auditRejected producerId v => some <|
      write t log e t (log ++ [.write call.actor producerId v .rejected])
        (.ended (if call.panel then .badRequest else .rejected))
        (.ended (if call.panel then .badRequest else .database))
  | .loadOne input => some <|
      match e.reply with
      | .ok =>
        let outcome := outcomeOf (t.producerQuota.find? input.key) input
        if outcome = .idempotent then (t, log, .audit input.producerId input.values outcome)
        else (t, log, .upsert input outcome)
      | _ => (t, log, .ended .database)
  | .upsert input outcome => some <|
      write t log e { t with producerQuota := t.producerQuota.upsert input } log
        (.audit input.producerId input.values outcome) (.ended .database)
  | .insertOverride producerId v =>
    match t.insertOverride e.newId producerId v with
    | none => some (t, log, .ended .database)
    | some t' => some <| write t log e t' log (.audit producerId v .created) (.ended .database)
  | .audit producerId v outcome => some <|
      write t log e t (log ++ [.write call.actor producerId v outcome]) (.ended (.done outcome))
        (.ended (match v with
          | .override _ _ _ _ _ _ _ => if call.panel then .done outcome else .database
          | .quota _ _ _ _ _ => .database))
  | .ended _ => none

end

/-! ## The tracker -/

/-- A row of `producer_usage`. -/
structure UsageRow where
  key : Key
  granularity : String
  windowStart : Time
  sent : Nat
  blocked : Nat

/-- The limit by the day with the overrides of the key. Source: `refresh_config`. -/
def raise (overrides : List ProducerQuotaOverride) (key : Key) (perDay : Option Int) : Option Int :=
  overrides.foldl (fun base o =>
    if o.key = key then some (base.elim o.perDay (max · o.perDay)) else base) perDay

/-- The limits, from what the two queries returned. Source: `refresh_config`. -/
def merged (quotas : Table ProducerQuota ProducerQuota.key)
    (overrides : List ProducerQuotaOverride) (key : Key) : Option EffectiveQuota :=
  (quotas.find? key).map fun q => ⟨q.perMinute, raise overrides key q.perDay, q.enforcement⟩

/-- The counters, from the rows that the query returned. -/
def rebuildFromDb (t : Tracker) (rows : List UsageRow) : Tracker :=
  rows.foldl (fun t row =>
    let c := t.counters row.key
    t.withCounters row.key
      (if row.granularity = "minute" then
        { c with minute := ⟨some row.windowStart, row.sent, row.blocked⟩ }
      else { c with day := ⟨some row.windowStart, row.sent, row.blocked⟩ })) t

/-! ## The system -/

/-- The tables, the calls and the tracker, with what its refresh has read of `producer_quota`. -/
structure World where
  tables : Tables
  audit : List AuditRecord
  calls : List Call
  tracker : Tracker
  listed : Option (Table ProducerQuota ProducerQuota.key)

inductive Act
  | cli (actor : String) (values : Values)
  | panel (isAdmin : Bool) (actor : String) (producerId : Uuid) (form : Form)
  | step (t : Nat) (e : Event)
  | list
  | loadActiveOverrides (now : Time)
  | restart (zone : Zone)
  | rebuild (rows : List UsageRow)
  | check (key : Key) (now : Time)

section
variable (parse : FormParsers)

/-- Where a request of the panel begins. -/
def panelPc (isAdmin : Bool) (producerId : Uuid) (form : Form) : Pc :=
  if !isAdmin then .ended .forbidden
  else
    match form.values parse with
    | none => .ended .badRequest
    | some v => v.start producerId

def World.step (w : World) : Act → Option World
  | .cli actor v => some { w with calls := w.calls ++ [⟨false, actor, .resolve v⟩] }
  | .panel isAdmin actor producerId form =>
    some { w with calls := w.calls ++ [⟨true, actor, panelPc parse isAdmin producerId form⟩] }
  | .step t e =>
    w.calls[t]?.bind fun call => (call.exec w.tables w.audit e).map fun r =>
      { w with
        tables := r.1
        audit := r.2.1
        calls := w.calls.set t { call with pc := r.2.2 } }
  | .list => some { w with listed := some w.tables.producerQuota }
  | .loadActiveOverrides now => w.listed.map fun quotas =>
    { w with
      tracker := { w.tracker with config := merged quotas (w.tables.loadActiveOverrides now) }
      listed := none }
  | .restart zone => some { w with tracker := .new zone, listed := none }
  | .rebuild rows => some { w with tracker := rebuildFromDb w.tracker rows }
  | .check key now => some { w with tracker := (checkAndRecord w.tracker key now).2 }

end

/-! ## The invariant -/

/-- Transactional traffic is not under hard enforcement. -/
def ProducerQuota.Legal (q : ProducerQuota) : Prop :=
  q.msgClass = transactional → q.enforcement ≠ hard

/-- What the call is about to write is legal. -/
def Pc.Legal : Pc → Prop
  | .loadOne input | .upsert input _ => input.Legal
  | _ => True

/-- The limits withhold no transactional traffic. -/
def Tracker.Legal (t : Tracker) : Prop :=
  ∀ key q, key.msgClass = transactional → t.config key = some q → q.enforcement ≠ hard

structure World.Legal (w : World) : Prop where
  rows : ∀ q ∈ w.tables.producerQuota, q.Legal
  calls : Indexed.All (fun _ call => call.pc.Legal) w.calls
  listed : ∀ quotas, w.listed = some quotas → ∀ q ∈ quotas, q.Legal
  tracker : w.tracker.Legal

section
variable {t t' : Tables} {log log' : List AuditRecord} {e : Event} {call : Call} {pc' : Pc}

/-- What passes the check is legal. -/
theorem legal_start (producerId : Uuid) (v : Values) : (v.start producerId).Legal := by
  unfold Values.start
  cases h : v.illegal with
  | true => trivial
  | false =>
    cases v with
    | override => trivial
    | quota channel msgClass perMinute perDay enforcement =>
      intro hclass hhard
      have : (Values.quota channel msgClass perMinute perDay enforcement).illegal = true := by
        simp only [Values.illegal]
        rw [show msgClass = transactional from hclass, show enforcement = hard from hhard]
        decide
      rw [this] at h
      cases h

/-- A statement leaves the rows of before or those that it writes. -/
theorem write_legal {next failed : Pc} {t1 : Tables} {log1 : List AuditRecord}
    (h : write t log e t1 log1 next failed = (t', log', pc'))
    (hrows : ∀ q ∈ t.producerQuota, q.Legal) (hrows1 : ∀ q ∈ t1.producerQuota, q.Legal)
    (hnext : next.Legal) (hfailed : failed.Legal) :
    (∀ q ∈ t'.producerQuota, q.Legal) ∧ pc'.Legal := by
  unfold write at h
  split at h <;> cases h
  · exact ⟨hrows1, hnext⟩
  · exact ⟨hrows, hfailed⟩
  · exact ⟨hrows1, hfailed⟩

theorem producerQuota_insertOverride {newId producerId : Uuid} {v : Values}
    (h : t.insertOverride newId producerId v = some t') : t'.producerQuota = t.producerQuota := by
  cases v with
  | quota => cases h
  | override =>
    obtain ⟨o, -, rfl⟩ := map_eq_some_iff.1 h
    rfl

/-- A statement writes what the call was about to write, if anything. -/
theorem exec_legal (h : call.exec t log e = some (t', log', pc')) (hpc : call.pc.Legal)
    (hrows : ∀ q ∈ t.producerQuota, q.Legal) : (∀ q ∈ t'.producerQuota, q.Legal) ∧ pc'.Legal := by
  obtain ⟨panel, actor, pc⟩ := call
  cases pc with
  | resolve v =>
    have h := Option.some.inj h
    split at h <;> cases h
    · exact ⟨hrows, legal_start _ _⟩
    · exact ⟨hrows, trivial⟩
    · exact ⟨hrows, trivial⟩
  | auditUnknown | auditRejected | audit =>
    exact write_legal (Option.some.inj h) hrows hrows trivial trivial
  | loadOne input =>
    have h := Option.some.inj h
    split at h
    · dsimp only at h
      split at h <;> cases h
      · exact ⟨hrows, trivial⟩
      · exact ⟨hrows, hpc⟩
    · cases h
      exact ⟨hrows, trivial⟩
  | upsert input outcome =>
    refine write_legal (Option.some.inj h) hrows (fun q hq => ?_) trivial trivial
    rcases Table.mem_upsert.1 hq with rfl | ⟨hq, -⟩
    · exact hpc
    · exact hrows q hq
  | insertOverride producerId v =>
    simp only [Call.exec] at h
    split at h
    · cases h
      exact ⟨hrows, trivial⟩
    · next t1 ht1 =>
      refine write_legal (Option.some.inj h) hrows ?_ trivial trivial
      rw [producerQuota_insertOverride ht1]
      exact hrows
  | ended result => cases h

/-- An override changes no enforcement. -/
theorem merged_legal {quotas : Table ProducerQuota ProducerQuota.key}
    (h : ∀ q ∈ quotas, q.Legal) (overrides : List ProducerQuotaOverride) (tracker : Tracker) :
    Tracker.Legal { tracker with config := merged quotas overrides } := by
  intro key q hclass hq
  obtain ⟨row, hrow, rfl⟩ := map_eq_some_iff.1 hq
  obtain ⟨hmem, rfl⟩ := Table.find?_some hrow
  exact h row hmem hclass

theorem rebuildFromDb_config (tracker : Tracker) (rows : List UsageRow) :
    (rebuildFromDb tracker rows).config = tracker.config := by
  unfold rebuildFromDb
  induction rows generalizing tracker with
  | nil => rfl
  | cons row rows ih =>
    rw [foldl_cons, ih]
    rfl

end

section
variable {parse : FormParsers} {w w' : World} {a : Act}

/-- Every step keeps the rows legal. -/
theorem World.Legal.step (hs : w.step parse a = some w') (h : w.Legal) : w'.Legal := by
  cases a with
  | cli actor v =>
    cases hs
    refine ⟨h.rows, h.calls.append fun _ _ call hc => ?_, h.listed, h.tracker⟩
    rw [mem_singleton.1 hc]
    trivial
  | panel isAdmin actor producerId form =>
    cases hs
    refine ⟨h.rows, h.calls.append fun _ _ call hc => ?_, h.listed, h.tracker⟩
    rw [mem_singleton.1 hc]
    show (panelPc parse isAdmin producerId form).Legal
    unfold panelPc
    split
    · trivial
    · split
      · trivial
      · exact legal_start _ _
  | step t e =>
    obtain ⟨call, hcall, hs⟩ := bind_eq_some_iff.1 hs
    obtain ⟨⟨t', log', pc'⟩, hexec, rfl⟩ := map_eq_some_iff.1 hs
    obtain ⟨hrows, hpc⟩ := exec_legal hexec (h.calls t call hcall) h.rows
    exact ⟨hrows, h.calls.set hpc, h.listed, h.tracker⟩
  | list =>
    cases hs
    refine ⟨h.rows, h.calls, fun quotas hq => ?_, h.tracker⟩
    cases hq
    exact h.rows
  | loadActiveOverrides now =>
    obtain ⟨quotas, hq, rfl⟩ := map_eq_some_iff.1 hs
    refine ⟨h.rows, h.calls, fun _ hnone => ?_, merged_legal (h.listed quotas hq) _ _⟩
    cases hnone
  | restart zone =>
    cases hs
    exact ⟨h.rows, h.calls, fun _ hnone => (by cases hnone), fun _ _ _ hnone => (by cases hnone)⟩
  | rebuild rows =>
    cases hs
    refine ⟨h.rows, h.calls, h.listed, fun key q hclass hq => ?_⟩
    rw [rebuildFromDb_config] at hq
    exact h.tracker key q hclass hq
  | check key now =>
    cases hs
    refine ⟨h.rows, h.calls, h.listed, fun key' q hclass hq => ?_⟩
    rw [(checkAndRecord_cases (t := w.tracker)).config] at hq
    exact h.tracker key' q hclass hq

/-- A tracker with such limits does not defer. -/
theorem Tracker.Legal.not_deferred {t : Tracker} (h : t.Legal) {key : Key}
    (hclass : key.msgClass = transactional ∨ key.msgClass = auth) (now until_ : Time) :
    (checkAndRecord t key now).1 ≠ .defer until_ := by
  intro hdefer
  have hcheck : CheckStep t key now (.defer until_) (checkAndRecord t key now).2 :=
    hdefer ▸ checkAndRecord_cases
  generalize (checkAndRecord t key now).2 = t' at hcheck
  cases hcheck with
  | deferred hauth hconfig hhard =>
    rcases hclass with hclass | hclass
    · exact h key _ hclass hconfig hhard
    · exact hauth hclass

/-- In every run of writes through the CLI and the panel from empty tables, with statements that
fail, and of refreshes, restarts and rebuilds: with the limits of the tracker and any counters, at
any time, a call for transactional or auth traffic is not deferred. -/
theorem transactional_not_deferred (zone : Zone) {as : List Act} {w : World}
    (h : Run.Steps (World.step parse) Run.Any ⟨.empty, [], [], .new zone, none⟩ as w)
    (counters : Key → Counters) (key : Key)
    (hclass : key.msgClass = transactional ∨ key.msgClass = auth) (now until_ : Time) :
    (checkAndRecord { w.tracker with counters := counters } key now).1 ≠ .defer until_ := by
  have hstart : World.Legal ⟨.empty, [], [], .new zone, none⟩ :=
    ⟨fun q hq => absurd hq (Table.not_mem_empty q), .nil, fun _ hq => (by cases hq),
      fun _ _ _ hq => by cases hq⟩
  have hend : w.Legal := h.inv (fun _ _ _ _ hs hi => hi.step hs) hstart
  exact Tracker.Legal.not_deferred (t := { w.tracker with counters := counters })
    hend.tracker hclass now until_

end

/-! ### Runs on fixed inputs -/

/-- Every limit of a form is three, and no time can be read. -/
def FormParsers.sample : FormParsers := ⟨fun _ => some 3, fun _ => none⟩

/-- Hard enforcement for transactional traffic is asked for through the CLI and through the panel,
then none a minute with soft enforcement; the override of it is granted, and the tracker refreshed.
-/
def writes : List Act :=
  [.cli "ops" (.quota "sms" transactional (some 1) none hard), .step 0 {}, .step 0 {},
    .panel true "admin" ⟨0⟩ (.quota "sms" transactional (some "3") none hard), .step 1 {},
    .cli "ops" (.quota "sms" transactional (some 0) (some 0) "soft"),
    .step 2 {}, .step 2 {}, .step 2 {}, .step 2 {},
    .cli "ops" (.override "sms" transactional 5 0 minute "admin" "launch"),
    .step 3 {}, .step 3 {}, .step 3 {}, .list, .loadActiveOverrides 1]

/-- Two writes are rejected and two done; the limits are those of the row and of the override, and a
call past the limit by the minute is a soft breach. -/
theorem transactional_not_deferred_writes :
    ∃ w, Run.Steps (World.step .sample) Run.Any ⟨.empty, [], [], .new utc, none⟩ writes w ∧
      w.calls.map Call.pc =
        [.ended .rejected, .ended .badRequest, .ended (.done .created), .ended (.done .created)] ∧
      w.tracker.config ⟨⟨0⟩, "sms", transactional⟩ = some ⟨some 0, some 5, "soft"⟩ ∧
      (checkAndRecord w.tracker ⟨⟨0⟩, "sms", transactional⟩ 1).1 = .softBreach ∧
      (checkAndRecord w.tracker ⟨⟨0⟩, "sms", transactional⟩ 1).1 ≠ .defer minute := by
  obtain ⟨w, hw, hp⟩ := Run.Steps.exists_of_exec (World.step .sample)
    ⟨.empty, [], [], .new utc, none⟩ writes
    (fun w => w.calls.map Call.pc =
        [.ended .rejected, .ended .badRequest, .ended (.done .created), .ended (.done .created)] ∧
      w.tracker.config ⟨⟨0⟩, "sms", transactional⟩ = some ⟨some 0, some 5, "soft"⟩ ∧
      (checkAndRecord w.tracker ⟨⟨0⟩, "sms", transactional⟩ 1).1 = .softBreach)
    (by decide +kernel)
  obtain ⟨hcalls, hconfig, hsoft⟩ := of_decide_eq_true hp
  exact ⟨w, hw, hcalls, hconfig, hsoft,
    transactional_not_deferred utc hw w.tracker.counters _ (.inl rfl) 1 minute⟩

end Messgr.Quota
