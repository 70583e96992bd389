import Messgr.Ingest.Accept

/-!
# Runs of the calls

Every run keeps the invariant, and every call of it that ends does so in its postcondition
(`holds_run`), while the steps that are not statements of a call are those that the mode
assumes (`Permitted`). The results about runs are read off from it.
-/

namespace Messgr.Ingest

open List Option
open Tx (Store)

/-- A call that creates keys for customers only. -/
def Call.ownKeys : Call → Bool
  | .createComms _ _ => true
  | .insertTransactional _ => true
  | .resolve _ _ _ _ => true
  | _ => false

/-- The steps that a mode considers. -/
structure Permitted (m : Mode) (w : State) (a : Move) : Prop where
  start : ∀ call, a = .start call → m.customersOnly → call.ownKeys = true
  sweep : ∀ asOf r, a = .env (.sweep asOf) → w.shared.db.Committed (.idempotency r) →
    r.expiresAt ≤ asOf → ¬ m.kept (.idempotency r.producerId r.key) ∧
      (m.keptWhenLost → ∀ t, (t, .idempotency r.producerId r.key) ∉ w.shared.lost)

section
variable [KeyStore] [UuidCrate] [HmacSha256] [Aes256Gcm]

/-- What a call ends in. -/
def post (m : Mode) (settings : Settings) (t : Nat) :
    Call → Except CallError Reply → Shared Call → Prop
  | .createComms process r =>
    Ends (fun e _ => e = .panicked → ¬ m.keptWhenLost) fun reply s =>
      ∃ status id, reply = .comms status id ∧ Replied t process r (status, id) s
  | .insertTransactional c =>
    Ends (NotInserted m) fun reply s => ∃ outcome, reply = .inserted outcome ∧
      Accepted s c.producerId c.idempotencyKey (acceptedId c outcome)
  | .resolve _ _ destination channel =>
    Ends (fun e s => Unresolved e s ∨ e = .panicked ∧ kindForChannel channel = none) fun reply s =>
      ∃ r kind, reply = .resolved r ∧ kindForChannel channel = some kind ∧
        ResolvedTo kind (destinationHmac settings.pepper destination) s r
  | .getOrCreateDek _ customerId =>
    Ends Outage fun reply s => ∃ p, reply = .dek p ∧ HasDek settings s customerId p
  | .preProvisionDeks customerIds =>
    Ends Outage fun reply s => ∃ o, reply = .preProvisioned o ∧
      o.created + o.alreadyExisted = customerIds.length ∧
      ∀ c ∈ customerIds, ∃ d, s.db.Committed (.customerDek d) ∧ d.customerId = c
  | .tryProcess _ id =>
    Ends (fun e s => Outage e s ∨ e = .database .rowNotFound ∨ Foreign s id) fun reply s =>
      ∃ row destination body, reply = .decrypted row destination body ∧
        row.commsRequestId = id ∧ ReadBack settings s row destination body

variable {m : Mode} {settings : Settings} {s s' : Shared Call} {t : Nat}

/-- Every call keeps the rules and ends in its postcondition. -/
theorem body_spec {call : Call} (hids : ∀ c ∈ call.ids, Usable s c)
    (hm : m.customersOnly → call.ownKeys = true) :
    Wp m settings t call (post m settings t call) (call.body settings) s := by
  have hno : call.ownKeys = false → ¬ m.customersOnly := fun h h' => by simp [hm h'] at h
  cases call with
  | createComms process r =>
    refine (createComms_spec fun c hc => hids c (by simpa [Call.ids] using hc)).seq
      (fun reply s1 h1 => ?_) fun e _ he => he
    obtain ⟨key, hpair, hacc, hrec⟩ := h1
    exact .ret fun s2 h2 => ⟨reply.1, reply.2, rfl, key, hpair, hacc.grows h2.toGrows,
      fun h => (hrec h).grows h2.toGrows⟩
  | insertTransactional c =>
    refine (insertTransactional_spec rfl (hids _ (.head _)) ?_).seq (fun outcome s1 h1 => ?_)
      fun e _ he => he
    · rintro _ _ ⟨⟩
    · exact .ret fun s2 h2 => ⟨outcome, rfl, h1.1.grows h2.toGrows⟩
  | resolve process input destination channel =>
    refine (resolve_spec rfl ?_).seq (fun r s1 h1 => ?_) fun e _ he => he
    · rintro c rfl
      exact hids c (.head _)
    · obtain ⟨-, kind, hk, hr⟩ := h1
      exact .ret fun s2 h2 => ⟨r, kind, rfl, hk, hr.grows h2.toGrows⟩
  | getOrCreateDek process c =>
    refine (getOrCreateDek_spec (hids c (.head _)) fun h => absurd h (hno rfl)).seq
      (fun p s1 h1 => ?_) fun e _ he => he
    exact .ret fun s2 h2 => ⟨p, rfl, h1.2.grows h2.toGrows⟩
  | preProvisionDeks ids =>
    refine (preProvisionDeks_spec hids fun h => absurd h (hno rfl)).seq (fun o s1 h1 => ?_)
      fun e _ he => he
    obtain ⟨-, hsum, hall⟩ := h1
    refine .ret fun s2 h2 => ⟨o, rfl, by simpa [Call.ids] using hsum, fun c hc => ?_⟩
    obtain ⟨d, hd, h⟩ := hall c hc
    exact ⟨d, h2.committed _ trivial hd, h⟩
  | tryProcess process id =>
    refine (tryProcess_spec (hno rfl)).seq (fun reply s1 h1 => ?_) fun e _ he => he
    obtain ⟨row, destination, body⟩ := reply
    exact .ret fun s2 h2 =>
      ⟨row, destination, body, rfl, h1.1, .grows h1.2 h2.toGrows⟩

end

/-! ## The other steps -/

section
variable {m : Mode} {s s' : Shared Call} {t : Nat}

/-- Rows of tables that are not lasting, deleted. -/
theorem Others.delete {p : Row → Bool} {db : Db} (hp : ∀ row, p row = true → ¬ row.lasting)
    (hkept : ∀ r, m.Keeps t s (.idempotency r.producerId r.key) → s.db.Committed (.idempotency r) →
      p (.idempotency r) = false)
    (h : s.db.delete p = some db) : Others m t s { s with db := db } := by
  have hdb : Tx.Others (fun row : Row => row.lasting) t s.db db := .delete (fun row hl _ => by
    cases hpr : p row with
    | false => rfl
    | true => exact absurd hl (hp row hpr)) h
  obtain ⟨he, -⟩ := Store.delete_some h
  exact {
    committed := hdb.committed
    known := fun _ h => h
    minted := fun _ _ h => h
    drawn := fun _ _ h => .inl h
    history := fun _ h => h
    own := fun _ h => h
    unmentioned := fun c _ hc => by
      obtain ⟨row, hr, hid⟩ := hc
      exact ⟨row, ((he _).1 hr).1, hid⟩
    locks := hdb.locks
    locked := hdb.locked
    pending := hdb.pending
    lost := fun _ => .rfl
    kept := fun r hk hr => (he _).2 ⟨hr, fun h => by simp [hkept r hk hr] at h⟩ }

/-- A call starts with ids that all may use. -/
theorem startCall_usable {call : Call} (h : startCall call s = some s') :
    ∀ c ∈ call.ids, Usable s' c := by
  intro c hc
  unfold startCall at h
  split at h
  · cases h
  · next hno =>
    cases h
    refine ⟨mem_append_left _ hc, fun u hu => ?_⟩
    have hpriv : s.isPrivate c = false := by
      cases hp : s.isPrivate c with
      | false => rfl
      | true => exact absurd (List.any_eq_true.2 ⟨c, hc, hp⟩) hno
    simp only [Shared.isPrivate, Bool.and_eq_false_iff, Bool.not_eq_false',
      List.any_eq_false, decide_eq_true_eq] at hpriv
    rcases hpriv with h | h
    · exact absurd rfl (h _ hu)
    · exact mentions_iff.1 h

theorem startCall_others {call : Call} (h : startCall call s = some s') (t : Nat) :
    Others m t s s' := by
  unfold startCall at h
  split at h
  · cases h
  · cases h
    exact .of_db (.refl _ _ _) (fun _ h => mem_append_right _ h) rfl (fun _ => .rfl)
      (fun _ h => h) fun _ _ h => h

end

section
variable [KeyStore]
variable {m : Mode} {settings : Settings} {s s' : Shared Call}

theorem startCall_quiet {call : Call} (h : startCall call s = some s') : Quiet m settings s s' := by
  unfold startCall at h
  split at h
  · cases h
  · cases h
    exact ⟨fun _ _ h => h, fun _ h => .inl h, fun _ _ h => h, fun _ h => .inl h,
      fun _ h => mem_append_right _ h, rfl, rfl, fun p h e he => .inl ⟨p, h, he⟩⟩

/-- What moves besides the calls disturbs none, if it deletes no kept key. -/
theorem Env.apply_quiet {x : Env} (h : x.apply s = some s')
    (hsweep : ∀ asOf r, x = .sweep asOf → s.db.Committed (.idempotency r) → r.expiresAt ≤ asOf →
      ¬ m.kept (.idempotency r.producerId r.key) ∧
        (m.keptWhenLost → ∀ t, (t, .idempotency r.producerId r.key) ∉ s.lost)) :
    Quiet m settings s s' ∧ ∀ t, Others m t s s' := by
  cases x with
  | startProcess inner ttl =>
    cases h
    refine ⟨⟨fun _ _ h => h, fun _ h => .inl h, fun _ _ h => h, fun _ h => .inl h, fun _ h => h,
      rfl, rfl, fun p hp e he => ?_⟩, fun t => .of_db (.refl _ _ _) (fun _ h => h) rfl
      (fun _ => .rfl) (fun _ h => h) fun _ _ h => h⟩
    rcases mem_append.1 hp with hp | hp
    · exact .inl ⟨p, hp, he⟩
    · cases mem_singleton.1 hp
      cases he
  | refresh process killSwitches =>
    obtain ⟨p, hp, h⟩ := bind_eq_some_iff.1 h
    cases h
    exact ⟨.setProcess hp fun e he => .inl he, fun t => .setProcess⟩
  | sweep asOf =>
    obtain ⟨db, hdb, h⟩ := bind_eq_some_iff.1 h
    cases h
    refine ⟨.delete (fun row hr hl => ?_) (fun r hk hr => ?_) hdb,
      fun t => .delete (fun row hr hl => ?_) (fun r hk hr => ?_) hdb⟩
    · cases row <;> first | exact hl | cases hr
    · simp only [decide_eq_false_iff_not]
      exact fun hle => (hsweep asOf r rfl hr hle).1 hk
    · cases row <;> first | exact hl | cases hr
    · simp only [decide_eq_false_iff_not]
      intro hle
      obtain ⟨h1, h2⟩ := hsweep asOf r rfl hr hle
      exact hk.elim h1 fun h => h2 h.1 t h.2
  | dequeue id =>
    obtain ⟨db, hdb, h⟩ := bind_eq_some_iff.1 h
    cases h
    refine ⟨.delete (fun row hr hl => ?_) (fun _ _ _ => rfl) hdb,
      fun t => .delete (fun row hr hl => ?_) (fun _ _ _ => rfl) hdb⟩
    · cases row <;> first | exact hl | cases hr
    · cases row <;> first | exact hl | cases hr
  | approveTemplate template =>
    obtain ⟨⟨a, db⟩, hdb, h⟩ := bind_eq_some_iff.1 h
    cases h
    exact ⟨.insertInert (.inl ⟨_, rfl⟩) hdb, fun t =>
      .insert (o := none) nofun (by rintro - _ ⟨⟩) hdb⟩
  | merge merged =>
    obtain ⟨⟨a, db⟩, hdb, h⟩ := bind_eq_some_iff.1 h
    cases h
    exact ⟨.insertInert (.inr ⟨_, rfl⟩) hdb, fun t =>
      .insert (o := none) nofun (by rintro - _ ⟨⟩) hdb⟩

end

/-! ## Runs -/

section
variable [KeyStore] [UuidCrate] [HmacSha256] [Aes256Gcm]
variable {m : Mode} {settings : Settings} {w : State}

/-- A permitted step keeps the rules. One call may have a postcondition of its own. -/
theorem Permitted.allows {a : Move} (h : Permitted m w a)
    {Q : Nat → Call → Except CallError Reply → Shared Call → Prop}
    (hQ : ∀ call s', a = .start call → startCall call w.shared = some s' →
      Inv m settings w.shared →
      Wp m settings w.threads.length call (Q w.threads.length call) (call.body settings) s') :
    (rules m settings).Allows Q w a where
  start call s' ha hs hinv :=
    ⟨hinv.quiet (startCall_quiet hs), startCall_others hs, hQ call s' ha hs hinv⟩
  env x s' ha hs hinv := by
    obtain ⟨hq, ho⟩ : Quiet m settings w.shared s' ∧ ∀ t, Others m t w.shared s' :=
      Env.apply_quiet hs fun asOf r hx => h.sweep asOf r (ha.trans (congrArg _ hx))
    exact ⟨hinv.quiet hq, ho⟩
  step _ _ _ _ _ _ _ := trivial

theorem Permitted.allows_post {a : Move} (h : Permitted m w a) :
    (rules m settings).Allows (post m settings) w a :=
  h.allows fun call _ ha hs _ => body_spec (startCall_usable hs) (h.start call ha)

/-- In every run of permitted steps the invariant holds, and every call ended in its postcondition.
-/
theorem holds_run {as : List Move}
    (h : Run.Steps (system settings).step (Permitted m) State.empty as w) :
    (rules m settings).Holds (post m settings) w :=
  Rules.Holds.run (fun _ _ ha => ha.allows_post) h ⟨.empty, .nil⟩

end

/-! ## Runs on fixed inputs -/

/-- The settings of a tenant. -/
def Settings.sample : Settings := ⟨⟨0⟩, "transit", [], "en", "UTC", 30⟩

/-- A request for an sms to a destination. -/
def IncomingRequest.sample (key destination : String) : IncomingRequest where
  producerId := ⟨2⟩
  idempotencyKey := some key
  body := {
    customerId := none
    externalId := none
    externalIdSystem := none
    destination := destination
    channel := "sms"
    msgClass := "transactional"
    templateId := "welcome"
    templateVersion := 1
    locale := none
    campaignId := none
    scheduledFor := none
    expiresAt := none
    templateVariables := [] }

/-- The calls of the sample tenant. -/
abbrev sampleSystem : Sys (Shared Call) Call Event Env Stmt.Answer CallError Reply :=
  @system .sample .sample .sample .sample .sample

/-- The active set with one switch, which blocks every request. -/
def engagedSet : ActiveSet := ⟨⟨[.sample ⟨9⟩], by decide⟩, [], nofun⟩

/-- One process and one template. -/
def Move.provision : List Move :=
  [.env (.startProcess .sample 1000), .env (.approveTemplate ⟨"welcome", 1, "en", "hello"⟩)]

/-- The statements of a request that the thread `t` makes without being disturbed, for a
destination that has no address: the ids are drawn behind `id`. -/
def Move.accept (t : Nat) (id : Nat) : List Move :=
  [.step t (.time 0), .step t .done, .step t .done, .step t .done,
   .step t (.uuid ⟨id⟩), .step t (.uuid ⟨id + 1⟩), .step t (.time 0),
   .step t (.created (.sample id)), .step t (.nonce .sample), .step t .done, .step t .done,
   .step t .done, .step t .done, .step t .done, .step t (.time 0), .step t .done,
   .step t (.time 0), .step t (.uuid ⟨id + 2⟩), .step t (.nonce .sample), .step t (.nonce .sample),
   .step t (.time 0), .step t .done, .step t .done, .step t .done, .step t .done, .step t .done]

end Messgr.Ingest
