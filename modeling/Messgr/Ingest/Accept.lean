import Messgr.Customer.Races

/-!
# Accepting and reading a message

What `create_comms` and `insert_transactional` return: the id of a message that was committed for
the producer and idempotency key (`createComms_spec`, `insertTransactional_spec`), with a ledger row
that decrypts to the destination and the rendered body of the request; and what `try_process` reads
back (`tryProcess_spec`). A request that finds its key taken returns the id that it was taken for
(`createComms_retry`).
-/

namespace Messgr.Ingest

open Tx (Store)

/-- A message was committed for the producer and key, under this id. -/
def Accepted (s : Shared Call) (producerId : Uuid) (key : String) (id : Uuid) : Prop :=
  ∃ w ∈ s.history, w.call.pair = some (producerId, key) ∧
    ∃ r, w.row = .idempotency r ∧ r.commsRequestId = id

/-- The call has committed a ledger row with this id. -/
def Recorded (s : Shared Call) (t : Nat) (call : Call) (id : Uuid) : Prop :=
  ∃ q, ⟨t, call, .commsRequest q⟩ ∈ s.history ∧ q.id = id

section
variable {s s' : Shared Call} {t : Nat} {call : Call} {p : Uuid} {k : String} {id : Uuid}

theorem Accepted.grows (h : Accepted s p k id) (hg : Grows s s') : Accepted s' p k id := by
  obtain ⟨w, hw, h⟩ := h
  exact ⟨w, hg.history w hw, h⟩

theorem Recorded.grows (h : Recorded s t call id) (hg : Grows s s') : Recorded s' t call id := by
  obtain ⟨q, hq, h⟩ := h
  exact ⟨q, hg.history _ hq, h⟩

/-- An idempotency row that is there was committed for its key. -/
theorem Accepted.of_committed {m : Mode} {r : IdempotencyRow} (h : Once m s)
    (hr : s.db.Committed (.idempotency r)) : Accepted s r.producerId r.key r.commsRequestId := by
  obtain ⟨w, hw, hrow, hpair⟩ := h.written r hr
  exact ⟨w, hw, hpair, r, hrow, rfl⟩

end

section
variable [KeyStore] [Aes256Gcm]
variable {m : Mode} {settings : Settings} {s : Shared Call} {t : Nat} {call : Call}

/-- The transaction that accepts a message. -/
theorem CommitOk.of_accepted {now : Time} {c : NewComms} (hinv : Inv m settings s)
    (hp : s.db.pending t = acceptedRows now c)
    (hpair : call.pair = some (c.producerId, c.idempotencyKey))
    (hreq : ∀ process r, call = .createComms process r → RequestOf settings s r (c.request now)) :
    CommitOk m settings t call s where
  address a ha := by simp [hp, acceptedRows] at ha
  request q hq process r hcall := by
    obtain rfl : q = c.request now := by simpa [hp, acceptedRows] using hq
    exact (hreq process r hcall).grows .commit
  ranks customerId kind := by
    obtain ⟨n, hn⟩ := hinv.ranks customerId kind
    refine ⟨n, (rankedTo_congr fun a _ => ?_).2 hn⟩
    refine Store.committed_commit.trans ⟨fun h => h.resolve_right fun ha => ?_, .inl⟩
    simp [hp, acceptedRows] at ha
  customers _ d hd := by simp [hp, acceptedRows] at hd
  ledger := .inr ⟨now, c, hp, hpair⟩

end

/-! ## The checks of the input -/

section
variable {ε α β : Type} {x : Except ε α} {f : α → Except ε β}

theorem exists_of_bind_eq_ok {b : β} (h : x >>= f = .ok b) : ∃ a, x = .ok a ∧ f a = .ok b := by
  cases x with
  | error e => cases h
  | ok a => exact ⟨a, rfl, h⟩

theorem cases_of_bind_eq_error {e : ε} (h : x >>= f = .error e) :
    x = .error e ∨ ∃ a, x = .ok a ∧ f a = .error e := by
  cases x with
  | error e => cases h; exact .inl rfl
  | ok a => exact .inr ⟨a, rfl, h⟩

end

section
variable {settings : Settings} {now : Time} {r : IncomingRequest}

theorem idempotencyKey_ok {key : String} (h : idempotencyKey r = .ok key) :
    r.idempotencyKey.filter (· ≠ "") = some key := by
  unfold idempotencyKey at h
  split at h
  · next hk => cases h; exact hk
  · cases h

theorem validateChannel_ok {channel : String} (h : validateChannel channel = .ok ()) :
    (kindForChannel channel).isSome := by
  unfold validateChannel at h
  split at h
  · next hc => rcases hc with rfl | rfl | rfl <;> rfl
  · cases h

theorem buildResolutionInput_ok {body : CreateCommsRequest} {c : Uuid}
    (h : buildResolutionInput body = .ok (.explicit c)) : body.customerId = some c := by
  unfold buildResolutionInput at h
  split at h <;> cases h
  assumption

/-- What the checks establish. -/
theorem validate_ok {v : ValidRequest} (h : validate settings now r = .ok v) :
    r.idempotencyKey.filter (· ≠ "") = some v.key ∧ (kindForChannel r.body.channel).isSome ∧
      ∀ c, v.input = .explicit c → r.body.customerId = some c := by
  obtain ⟨key, hkey, h⟩ := exists_of_bind_eq_ok h
  obtain ⟨_, hchannel, h⟩ := exists_of_bind_eq_ok h
  obtain ⟨msgClass, -, h⟩ := exists_of_bind_eq_ok h
  obtain ⟨input, hinput, h⟩ := exists_of_bind_eq_ok h
  obtain ⟨_, -, h⟩ := exists_of_bind_eq_ok h
  cases h
  refine ⟨idempotencyKey_ok hkey, validateChannel_ok hchannel, ?_⟩
  rintro c rfl
  exact buildResolutionInput_ok hinput

theorem pair_of_validate {v : ValidRequest} (h : validate settings now r = .ok v)
    (process : Nat) : (Call.createComms process r).pair = some (r.producerId, v.key) := by
  simp only [Call.pair, (validate_ok h).1, Option.map_some]

/-- A check answers. -/
theorem validate_error {e : CallError} (h : validate settings now r = .error e) :
    e ≠ .panicked := by
  rintro rfl
  rcases cases_of_bind_eq_error h with h | ⟨key, -, h⟩
  · unfold idempotencyKey at h
    split at h <;> cases h
  rcases cases_of_bind_eq_error h with h | ⟨_, -, h⟩
  · unfold validateChannel at h
    split at h <;> cases h
  rcases cases_of_bind_eq_error h with h | ⟨msgClass, -, h⟩
  · unfold validateClass at h
    repeat' split at h
    all_goals cases h
  rcases cases_of_bind_eq_error h with h | ⟨input, -, h⟩
  · unfold buildResolutionInput at h
    split at h <;> cases h
  rcases cases_of_bind_eq_error h with h | ⟨_, -, h⟩
  · unfold validateSchedule at h
    repeat' split at h
    all_goals cases h
  · cases h

end

section
variable [KeyStore] [UuidCrate] [HmacSha256] [Aes256Gcm]
variable {m : Mode} {settings : Settings} {s : Shared Call} {t : Nat} {call : Call}
variable {process : Nat} {r : IncomingRequest}

open Program List Bool Row

/-! ## Accepting -/

/-- The row of an idempotency key that was looked up; one that no sweep deletes is found. -/
theorem wp_findIdempotentReply {β : Type} {Q : Except CallError β → Shared Call → Prop}
    {p : Uuid} {k : String} {f : Option Uuid → Program β}
    (hdb : ∀ s', Q (.error (.database .connection)) s')
    (hsome : ∀ s' r, Inv m settings s' → Same t s s' → s'.db.Committed (.idempotency r) →
      r.producerId = p → r.key = k →
      (∀ r', s.db.Committed (.idempotency r') → r'.producerId = p → r'.key = k →
        m.Keeps t s (.idempotency p k) → r' = r) →
      Wp m settings t call Q (f (some r.commsRequestId)) s')
    (hnone : ∀ s', Same t s s' →
      (∀ r', s.db.Committed (.idempotency r') → r'.producerId = p → r'.key = k →
        ¬ m.Keeps t s (.idempotency p k)) → Wp m settings t call Q (f none) s') :
    Wp m settings t call Q (Program.findIdempotentReply p k >>= f) s := by
  refine wp_query hdb fun s1 hinv h1 => ?_
  have hrow : ∀ r, r ∈ (s1.db.visible none).filterMap Row.idempotency? ↔
      s1.db.Committed (.idempotency r) := fun r => by
    simp [mem_filterMap, idempotency?_eq_some, Store.mem_visible_none]
  have hkept : ∀ r', s.db.Committed (.idempotency r') → r'.producerId = p → r'.key = k →
      m.Keeps t s (.idempotency p k) → s1.db.Committed (.idempotency r') := by
    rintro r' hr' rfl rfl hk
    exact h1.kept r' hk hr'
  have hs : Same t s (s1.looked t) := h1.toSame.trans .looked
  simp only [if_false, false_eq_true]
  cases hf : ((s1.db.visible none).filterMap Row.idempotency?).find?
      (fun r => r.producerId = p && r.key = k) with
  | none =>
    refine hnone _ hs fun r' hr' hp hk hkeeps => ?_
    have := find?_eq_none.1 hf r' ((hrow r').2 (hkept r' hr' hp hk hkeeps))
    simp [hp, hk] at this
  | some r =>
    have hp := List.find?_some hf
    simp only [and_eq_true, decide_eq_true_eq] at hp
    have hr := (hrow r).1 (mem_of_find?_eq_some hf)
    refine hsome _ r (.looked hinv) hs hr hp.1 hp.2 fun r' hr' hp' hk' hkeeps => ?_
    cases Store.Committed.eq_of_key (hkept r' hr' hp' hk' hkeeps) hr
      (idempotency_mem_keys.2 ⟨r', rfl, hp', hk'⟩)
      (idempotency_mem_keys.2 ⟨r, rfl, hp⟩)
    rfl

/-- How accepting a message fails: an outage, an id that is in use, or, if sweeps delete keys that
a call has found taken, a panic. -/
def NotInserted (m : Mode) (e : CallError) (_ : Shared Call) : Prop :=
  e = .database .connection ∨ e = .database .uniqueViolation ∨ e = .panicked ∧ ¬ m.keptWhenLost

/-- The id that a message was accepted under. -/
def acceptedId (c : NewComms) : InsertOutcome → Uuid
  | .created => c.commsRequestId
  | .replayed id => id

/-- A message is accepted once, or the id is returned that its key is taken for. -/
theorem insertTransactional_spec {c : NewComms}
    (hpair : call.pair = some (c.producerId, c.idempotencyKey)) (hc : Usable s c.customerId)
    (hreq : ∀ process r, call = .createComms process r →
      ∀ now, RequestOf settings s r (c.request now)) :
    Wp m settings t call
      (Ends (NotInserted m) fun outcome s' =>
        Accepted s' c.producerId c.idempotencyKey (acceptedId c outcome) ∧
        (outcome = .created → Recorded s' t call c.commsRequestId))
      (Program.insertTransactional c) s := by
  have hdb : ∀ s' : Shared Call, NotInserted m (.database .connection) s' := fun _ => .inl rfl
  refine wp_now fun now s1 h1 => wp_begin hdb fun s2 h2 hp2 => ?_
  have hg : Grows s s2 := h1.toGrows.trans h2.toGrows
  refine wp_insertTx hdb (fun _ hid => nomatch hid) (fun s3 h3 hp3 => ?_)
    (fun s3 row k h3 hseen hk hkr hlost => ?_)
    (fun _ row k _ _ hno hk hkr => absurd hkr (hno k hk)) fun _ k _ hk => nomatch hk
  · -- the key was free
    rw [hp2, nil_append] at hp3
    refine wp_insertTx hdb ?_ (fun s4 h4 hp4 => ?_) (fun _ _ _ _ _ hk => nomatch hk)
      (fun _ _ _ _ _ _ _ _ _ => .inr (.inl rfl)) fun _ k _ hk => nomatch hk
    · intro id hid
      cases mem_singleton.1 hid
      exact (hc.grows (hg.trans h3.toGrows)).usableBy t
    rw [hp3] at hp4
    refine wp_insertTx hdb (fun _ hid => nomatch hid) (fun s5 h5 hp5 => ?_)
      (fun _ _ _ _ _ hk => nomatch hk) (fun _ _ _ _ _ _ _ _ _ => .inr (.inl rfl))
      fun _ k _ hk => nomatch hk
    replace hp5 : s5.db.pending t = acceptedRows now c := by rw [hp5, hp4]; rfl
    have hg5 : Grows s s5 := hg.trans (h3.toGrows.trans (h4.toGrows.trans h5.toGrows))
    refine wp_commit hdb (fun s6 hinv h6 => .of_accepted hinv (h6.pending.trans hp5) hpair
      fun process r hcall => (hreq process r hcall now).grows (hg5.trans h6.toGrows))
      fun s6 _ h6 => .ret fun s7 h7 => ?_
    have hmem : ∀ row ∈ acceptedRows now c, ⟨t, call, row⟩ ∈ (s6.commit t call).history :=
      fun row hr => mem_history_commit.2 (.inr ⟨rfl, rfl, by rwa [h6.pending, hp5]⟩)
    have hacc : Accepted (s6.commit t call) c.producerId c.idempotencyKey c.commsRequestId :=
      ⟨_, hmem _ (.head _), hpair, _, rfl, rfl⟩
    have hrec : Recorded (s6.commit t call) t call c.commsRequestId :=
      ⟨_, hmem _ (.tail _ (.head _)), rfl⟩
    exact ⟨hacc.grows h7.toGrows, fun _ => hrec.grows h7.toGrows⟩
  · -- the key is taken
    cases mem_singleton.1 hk
    obtain ⟨r, rfl, hrp, hrk⟩ := idempotency_mem_keys.1 hkr
    have hrow : s3.db.Committed (.idempotency r) := hseen.resolve_right (by simp [hp2])
    refine wp_rollback hdb fun s4 h4 hlost4 hkept4 => ?_
    refine wp_findIdempotentReply hdb (fun s5 r' hinv h5 hr' hp hk _ => ?_) fun s5 h5 hno => ?_
    · refine .ret fun s6 h6 => ⟨?_, nofun⟩
      have hacc := Accepted.of_committed hinv.once hr'
      rw [hp, hk] at hacc
      exact hacc.grows h6.toGrows
    · refine .fail fun _ _ => .inr (.inr ⟨rfl, fun hm => ?_⟩)
      have hkeeps : m.Keeps t s3 (.idempotency r.producerId r.key) := .inr ⟨hm, hrp ▸ hrk ▸ hlost⟩
      exact hno r (hkept4 r hkeeps hrow) hrp hrk (.inr ⟨hm, (hlost4 _).2 hlost⟩)

/-! ## The request -/

/-- The message that is built decrypts to the request. -/
theorem buildComms_spec {v : ValidRequest} {resolved : Resolved}
    (hc : Published s resolved.customerId) (hl : LocaleOf s resolved.customerId resolved.locale) :
    Wp m settings t call
      (Ends (fun e _ => e ≠ .panicked) fun c s' => Grows s s' ∧ c.producerId = r.producerId ∧
        c.idempotencyKey = v.key ∧ c.customerId = resolved.customerId ∧ Usable s' c.customerId ∧
        ∀ now, RequestOf settings s' r (c.request now)) (buildComms settings process r v resolved)
      s := by
  refine wp_fetchOptional template?_eq_some nofun (fun s1 template hinv h1 ht hp => ?_)
    fun s1 _ h1 _ => .fail fun _ _ => nofun
  simp only [and_eq_true, decide_eq_true_eq] at hp
  refine wp_ofExcept (fun body hbody => ?_) fun e _ _ _ => nofun
  have hc1 := hc.grows h1.toGrows
  refine (getOrCreateDek_spec (hc1.usable hinv) fun _ => hc1).seq (fun dek s2 h2 => ?_)
    fun e _ he => by rcases he with rfl | rfl <;> nofun
  refine wp_newUuid fun id s3 h3 _ => wp_nonce fun n s4 h4 => ?_
  refine wp_ofExcept (fun destination hdest => ?_) fun e _ _ _ => nofun
  refine wp_nonce fun n' s5 h5 => ?_
  refine wp_ofExcept (fun payload hpayload => ?_) fun e _ _ _ => nofun
  refine .ret fun s6 h6 => ?_
  have hg2 : Grows s2 s6 := (h3.trans (h4.trans (h5.trans h6.toSame))).toGrows
  have hg1 : Grows s1 s6 := h2.1.toGrows.trans hg2
  refine ⟨h1.toGrows.trans hg1, rfl, rfl, rfl, (hc1.usable hinv).grows hg1, fun now => ?_⟩
  exact ⟨dek, payload, body, h2.2.grows hg2, decrypt_encrypt hdest, rfl, decrypt_encrypt hpayload,
    template, resolved.locale, hg1.committed _ trivial ht, hp.1.1, hp.1.2, hp.2,
    hl.grows (h1.toGrows.trans hg1), hbody⟩

/-- What a request returns: the id of the message that was committed for its key. -/
def Replied (t : Nat) (process : Nat) (r : IncomingRequest) (reply : StatusCode × Uuid)
    (s : Shared Call) : Prop :=
  ∃ key, (Call.createComms process r).pair = some (r.producerId, key) ∧
    Accepted s r.producerId key reply.2 ∧
    (reply.1 = .created → Recorded s t (.createComms process r) reply.2)

/-- A valid request is replied to with its message. -/
theorem acceptComms_spec {v : ValidRequest} {now : Time} (hv : validate settings now r = .ok v)
    (hids : ∀ c ∈ r.body.customerId, Usable s c) :
    Wp m settings t (.createComms process r)
      (Ends (fun e _ => e = .panicked → ¬ m.keptWhenLost) (Replied t process r))
      (acceptComms settings process r v) s := by
  obtain ⟨-, hkind, hinput⟩ := validate_ok hv
  have hpair := pair_of_validate hv process
  refine wp_blockingScope fun scope s1 h1 => ?_
  cases scope with
  | some scope => exact .fail fun _ _ => nofun
  | none =>
    refine (resolve_spec rfl fun c hc => (hids c (hinput c hc)).grows h1.toGrows).seq
      (fun resolved s2 h2 => ?_) fun e s2 he hpanic => ?_
    · obtain ⟨-, kind, -, hres⟩ := h2
      refine (buildComms_spec hres.published hres.locale).seq (fun c s3 h3 => ?_)
        fun e s3 he hpanic => absurd hpanic he
      obtain ⟨-, hp, hk, -, hc, hreq⟩ := h3
      refine (insertTransactional_spec (by rw [hp, hk, hpair]) hc ?_).seq
        (fun outcome s4 h4 => ?_) fun e s4 he hpanic => ?_
      · rintro _ _ ⟨⟩
        exact hreq
      · rw [hp, hk] at h4
        cases outcome with
        | created => exact .ret fun s5 h5 =>
            ⟨v.key, hpair, h4.1.grows h5.toGrows, fun _ => (h4.2 rfl).grows h5.toGrows⟩
        | replayed id => exact .ret fun s5 h5 =>
            ⟨v.key, hpair, h4.1.grows h5.toGrows, nofun⟩
      · subst hpanic
        rcases he with he | he | he
        · cases he
        · cases he
        · exact he.2
    · -- the channel was validated
      subst hpanic
      rcases he with (he | ⟨_, he⟩ | ⟨he, -⟩) | ⟨-, he⟩
      · rcases he with he | he <;> cases he
      · cases he
      · cases he
      · rw [he] at hkind
        cases hkind

/-- A request that succeeds returns the id of the message committed for its key. -/
theorem createComms_spec (hids : ∀ c ∈ r.body.customerId, Usable s c) :
    Wp m settings t (.createComms process r)
      (Ends (fun e _ => e = .panicked → ¬ m.keptWhenLost) (Replied t process r))
      (createComms settings process r) s := by
  refine wp_now fun now s1 h1 => ?_
  refine wp_ofExcept (fun v hv => ?_) fun e he _ _ hpanic => ?_
  · refine wp_findIdempotentReply nofun (fun s2 row hinv h2 hrow hp hk _ => ?_) fun s2 h2 _ => ?_
    · refine .ret fun s3 h3 => ⟨v.key, ?_, ?_, nofun⟩
      · exact pair_of_validate hv process
      · have hacc := Accepted.of_committed hinv.once hrow
        rw [hp, hk] at hacc
        exact hacc.grows h3.toGrows
    · exact acceptComms_spec hv fun c hc => (hids c hc).grows (h1.trans h2).toGrows
  · exact absurd hpanic (validate_error he)

/-- A request whose key is taken, and stays so, returns the id it is taken for. -/
theorem createComms_retry {row : IdempotencyRow} (hrow : s.db.Committed (.idempotency row))
    (hpair : (Call.createComms process r).pair = some (row.producerId, row.key))
    (hkept : m.kept (.idempotency row.producerId row.key)) :
    Wp m settings t call
      (Ends (fun e _ => (∃ now, validate settings now r = .error e) ∨ e = .database .connection)
        fun reply _ => reply = (.ok, row.commsRequestId)) (createComms settings process r) s := by
  refine wp_clock fun now s1 h1 => ?_
  refine wp_ofExcept (fun v hv => ?_) fun e he _ _ => .inl ⟨now, he⟩
  have hpk : r.producerId = row.producerId ∧ v.key = row.key := by
    rwa [pair_of_validate hv, Option.some_inj, Prod.mk.injEq] at hpair
  have hrow1 : s1.db.Committed (.idempotency row) := h1.kept row (.inl hkept) hrow
  refine wp_findIdempotentReply (fun _ => .inr rfl)
    (fun s2 row' _ h2 _ _ _ heq => .ret fun s3 _ => ?_) fun s2 h2 hno => ?_
  · rw [heq row hrow1 hpk.1.symm hpk.2.symm (.inl (hpk.1 ▸ hpk.2 ▸ hkept))]
    rfl
  · exact absurd (.inl (hpk.1 ▸ hpk.2 ▸ hkept)) (hno row hrow1 hpk.1.symm hpk.2.symm)

end

/-! ## Reading -/

/-- A queue row of this id that no request of `create_comms` wrote. -/
def Foreign (s : Shared Call) (id : Uuid) : Prop :=
  ∃ w ∈ s.history, ∃ o, w.row = .outbox o ∧ o.commsRequestId = id ∧
    ∀ process r, w.call ≠ .createComms process r

theorem Foreign.grows {s s' : Shared Call} {id : Uuid} (h : Foreign s id) (hg : Grows s s') :
    Foreign s' id := by
  obtain ⟨w, hw, h⟩ := h
  exact ⟨w, hg.history w hw, h⟩

section
variable [KeyStore] [Aes256Gcm]
variable {settings : Settings} {s : Shared Call} {row : OutboxRow} {destination body : String}

/-- The texts are what the ledger row of a queue row decrypts to, under its customer's key. -/
def ReadBack (settings : Settings) (s : Shared Call) (row : OutboxRow) (destination body : String) :
    Prop :=
  ∃ q p payload x y, s.db.Committed (.commsRequest q) ∧ q.id = row.commsRequestId ∧
    q.createdAt = row.createdAt ∧ HasDek settings s q.customerId p ∧
    decrypt p q.id.asBytes q.destinationCiphertext = .ok x ∧ fromUtf8 x = some destination ∧
    q.payloadCiphertext = some payload ∧
    decrypt p q.id.asBytes payload = .ok y ∧ fromUtf8 y = some body

theorem ReadBack.grows {s' : Shared Call} (h : ReadBack settings s row destination body)
    (hg : Grows s s') : ReadBack settings s' row destination body := by
  obtain ⟨q, p, payload, x, y, hq, h1, h2, hp, h⟩ := h
  exact ⟨q, p, payload, x, y, hg.committed _ trivial hq, h1, h2, hp.grows hg, h⟩

/-- What is read of a row is what the request asked for that wrote it. -/
theorem ReadBack.of_request {r : IncomingRequest} {q : CommsRequest}
    (h : ReadBack settings s row destination body) (hq : s.db.Committed (.commsRequest q))
    (hid : q.id = row.commsRequestId) (hat : q.createdAt = row.createdAt)
    (hr : RequestOf settings s r q) :
    destination = r.body.destination ∧ Rendered settings s r q.customerId body := by
  obtain ⟨q', p, payload, x, y, hq', hid', hat', hp, hd, hx, hpl, hb, hy⟩ := h
  cases hq'.eq_of_key hq (k := .commsRequest row.createdAt row.commsRequestId)
    (by simp [Tx.Schema.keys, Row.keys, hid', hat']) (by simp [Tx.Schema.keys, Row.keys, hid, hat])
  obtain ⟨p', payload', body', hp', hd', hpl', hb', hren⟩ := hr
  cases hp.unique hp'
  cases hpl.symm.trans hpl'
  cases hd.symm.trans hd'
  cases hb.symm.trans hb'
  cases hx.symm.trans (fromUtf8_asBytes _)
  cases hy.symm.trans (fromUtf8_asBytes _)
  exact ⟨rfl, hren⟩

end

section
variable [KeyStore] [UuidCrate] [HmacSha256] [Aes256Gcm]
variable {m : Mode} {settings : Settings} {s : Shared Call} {t : Nat} {call : Call}

open Program

/-- What the dispatcher decrypts of a queue row. -/
theorem decryptMessage_spec {process : Nat} {row : OutboxRow} {q : CommsRequest}
    (hm : ¬ m.customersOnly) (hq : s.db.Committed (.commsRequest q))
    (hid : q.id = row.commsRequestId) (hat : q.createdAt = row.createdAt)
    (hcust : q.customerId = row.customerId) (hc : Usable s row.customerId)
    (hreq : Foreign s row.commsRequestId ∨ ∃ r, RequestOf settings s r q) :
    Wp m settings t call
      (Ends (fun e s' => Outage e s' ∨ Foreign s' row.commsRequestId) fun texts s' =>
        ReadBack settings s' row texts.1 texts.2) (decryptMessage process row) s := by
  refine wp_fetchOptional Row.commsRequest?_eq_some (fun _ => .inl (.inl rfl))
    (fun s1 q' _ h1 hq' hp => ?_) fun s1 _ h1 hno => ?_
  · simp only [Bool.and_eq_true, decide_eq_true_eq] at hp
    have hq1 : s1.db.Committed (.commsRequest q) := h1.committed _ trivial hq
    cases hq'.eq_of_key hq1
      (k := .commsRequest row.createdAt row.commsRequestId)
      (by simp [Tx.Schema.keys, Row.keys, hp]) (by simp [Tx.Schema.keys, Row.keys, hid, hat])
    refine (getOrCreateDek_spec (hc.grows h1.toGrows) fun h => absurd h hm).seq
      (fun dek s2 h2 => ?_) fun e _ he => .inl he
    have hdek : HasDek settings s2 q.customerId dek := hcust ▸ h2.2
    have hg : Grows s s2 := (h1.trans h2.1).toGrows
    -- a row that does not decrypt is not one of `create_comms`
    have foreign : ∀ {e s'}, Others m t s2 s' → (∀ destination payload body,
        decrypt dek row.commsRequestId.asBytes q.destinationCiphertext =
          .ok (asBytes destination) → q.payloadCiphertext = some payload →
        decrypt dek row.commsRequestId.asBytes payload = .ok (asBytes body) → False) →
        Outage e s' ∨ Foreign s' row.commsRequestId := by
      intro e s' h' hno
      rcases hreq with hf | ⟨r, hr⟩
      · exact .inr (hf.grows (hg.trans h'.toGrows))
      · obtain ⟨p, payload, body, hp, hd, hpl, hb, -⟩ := hr.grows hg
        cases hdek.unique hp
        exact (hno _ payload body (hid ▸ hd) hpl (hid ▸ hb)).elim
    refine wp_ofExcept (fun x hx => ?_) fun e he s3 h3 => foreign h3 fun _ _ _ hd _ _ => by
      cases he.symm.trans hd
    cases hdest : fromUtf8 x with
    | none =>
      refine .fail fun s3 h3 => foreign h3 fun _ _ _ hd _ _ => ?_
      cases hx.symm.trans hd
      simp [fromUtf8_asBytes] at hdest
    | some destination =>
      cases hpl : q.payloadCiphertext with
      | none =>
        refine .fail fun s3 h3 => foreign h3 fun _ _ _ _ h _ => ?_
        cases hpl.symm.trans h
      | some payload =>
        refine wp_ofExcept (fun y hy => ?_) fun e he s3 h3 => foreign h3 fun _ _ _ _ h hb => ?_
        · cases hbody : fromUtf8 y with
          | none =>
            refine .fail fun s3 h3 => foreign h3 fun _ _ _ _ h hb => ?_
            cases hpl.symm.trans h
            cases hy.symm.trans hb
            simp [fromUtf8_asBytes] at hbody
          | some body =>
            refine .ret fun s3 h3 => ?_
            rw [← hid] at hx hy
            exact ⟨q, dek, payload, x, y, (h2.1.trans h3.toSame).committed _ trivial hq1, hid,
              hat, hdek.grows h3.toGrows, hx, hdest, hpl, hy, hbody⟩
        · cases hpl.symm.trans h
          cases he.symm.trans hb
  · have := hno q (h1.committed _ trivial hq)
    simp [hid, hat] at this

/-- What the dispatcher reads of the queue. -/
theorem tryProcess_spec {process : Nat} {id : Uuid} (hm : ¬ m.customersOnly) :
    Wp m settings t call
      (Ends (fun e s' => Outage e s' ∨ e = .database .rowNotFound ∨ Foreign s' id) fun reply s' =>
        reply.1.commsRequestId = id ∧ ReadBack settings s' reply.1 reply.2.1 reply.2.2)
      (Program.tryProcess process id) s := by
  refine wp_fetchOptional Row.outbox?_eq_some (fun _ => .inl (.inl rfl))
    (fun s1 row hinv h1 hrow hp => ?_) fun s1 _ h1 _ => .fail fun _ _ => .inr (.inl rfl)
  obtain rfl : row.commsRequestId = id := of_decide_eq_true hp
  obtain ⟨w, hw, hwrow⟩ := hinv.written.outboxWritten row hrow
  obtain ⟨q, hwq, hid, hat, hcust⟩ := hinv.written.outbox w hw row hwrow
  obtain ⟨hq, hreq⟩ := hinv.written.request _ hwq q rfl
  have hment : Mentioned s1 row.customerId := ⟨_, hq, by simp [Row.ids, hcust]⟩
  have hc : Usable s1 row.customerId :=
    ⟨hinv.ids.known _ hq _ (by simp [Row.ids, hcust]), fun _ _ => hment⟩
  refine (decryptMessage_spec hm hq hid hat hcust hc ?_).seq (fun texts s2 h2 => ?_)
    fun e s2 he => he.imp_right .inr
  · cases hcall : w.call with
    | createComms process r => exact .inr ⟨r, hreq process r hcall⟩
    | _ =>
      refine .inl ⟨w, hw, row, hwrow, rfl, fun _ _ h => ?_⟩
      cases hcall.symm.trans h
  · exact .ret fun s3 h3 => ⟨rfl, .grows h2 h3.toGrows⟩

end

end Messgr.Ingest
