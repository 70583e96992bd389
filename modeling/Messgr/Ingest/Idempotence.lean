import Messgr.Ingest.Runs

/-!
# One message per idempotency key

As long as no sweep deletes a producer's idempotency key, the requests that carry it commit at most
one message, whatever they interleave with and wherever they fail (`createComms_idempotent`). A call
that finds a key taken looks it up again outside its transaction, and expects the row to be still
there: it is if no sweep deletes the key in between (`insertTransactional_ne_panicked`,
`insertTransactional_panics`).
-/

namespace Messgr.Ingest

open List
open Tx (Store)

/-- What was ever committed for the producer and key is the message with this id. -/
def AcceptedOnce (s : Shared Call) (producerId : Uuid) (key : String) (id : Uuid) : Prop :=
  ∃ t call now c, c.commsRequestId = id ∧
    ledgerOf s producerId key = (acceptedRows now c).map fun row => ⟨t, call, row⟩

/-- No sweep deletes the row of the key. -/
def keepsKey (producerId : Uuid) (key : String) (w : State) : Move → Bool
  | .env (.sweep asOf) =>
    (w.shared.db.visible none).all fun
      | .idempotency r => !(r.producerId = producerId && r.key = key && r.expiresAt ≤ asOf)
      | _ => true
  | _ => true

/-- No sweep deletes the row of a key that a call found taken and did not look up since. -/
def keepsLostKeys (w : State) : Move → Bool
  | .env (.sweep asOf) =>
    (w.shared.db.visible none).all fun
      | .idempotency r =>
        !(r.expiresAt ≤ asOf && w.shared.lost.any (·.2 = .idempotency r.producerId r.key))
      | _ => true
  | _ => true

/-- The key is kept. -/
def Mode.keeping (producerId : Uuid) (key : String) : Mode :=
  ⟨(· = .idempotency producerId key), False, False⟩

/-- The keys that calls have found taken are kept. -/
def Mode.keepingLost : Mode := ⟨fun _ => False, True, False⟩

theorem permitted_of_keepsKey {p : Uuid} {k : String} {w : State} {a : Move}
    (h : keepsKey p k w a = true) : Permitted (.keeping p k) w a where
  start _ _ hm := hm.elim
  sweep asOf r ha hr hle := by
    subst ha
    have := all_eq_true.1 h _ (Store.mem_visible_none.2 hr)
    refine ⟨fun hk => ?_, nofun⟩
    cases hk
    simp [hle] at this

theorem permitted_of_keepsLostKeys {w : State} {a : Move} (h : keepsLostKeys w a = true) :
    Permitted .keepingLost w a where
  start _ _ hm := hm.elim
  sweep asOf r ha hr hle := by
    subst ha
    have := all_eq_true.1 h _ (Store.mem_visible_none.2 hr)
    refine ⟨nofun, fun _ t ht => ?_⟩
    simp only [hle, decide_true, Bool.true_and, Bool.not_eq_true', any_eq_false,
      decide_eq_true_eq] at this
    exact this _ ht rfl

/-- The message accepted for a kept key is the one there is, and the key is taken. -/
theorem Accepted.once {m : Mode} {s : Shared Call} {p : Uuid} {k : String} {id : Uuid}
    (h : Accepted s p k id) (hs : Once m s) (hk : m.kept (.idempotency p k)) :
    AcceptedOnce s p k id ∧ ∃ row, s.db.Committed (.idempotency row) ∧ row.producerId = p ∧
      row.key = k ∧ row.commsRequestId = id := by
  obtain ⟨w, hw, hpair, r, hrow, rfl⟩ := h
  have hmem : w ∈ ledgerOf s p k := mem_filter.2 ⟨hw, by simp [hpair, hrow, Row.isLedger]⟩
  rcases hs.once p k hk with hnil | ⟨t, call, now, c, hp, hck, hcom, hl⟩
  · rw [hnil] at hmem
    cases hmem
  · rw [hl] at hmem
    obtain ⟨row, hr, rfl⟩ := mem_map.1 hmem
    obtain rfl : r = c.idempotencyRow now := by
      simp only [acceptedRows, mem_cons, not_mem_nil, or_false] at hr
      simp only at hrow
      rcases hr with rfl | rfl | rfl <;> cases hrow
      rfl
    exact ⟨⟨t, call, now, c, rfl, hl⟩, _, hcom, hp, hck, rfl⟩

section
variable [KeyStore] [UuidCrate] [HmacSha256] [Aes256Gcm]

/-- In every run in which no sweep deletes the key, at most one message is committed for it, every
request with it that succeeds returns the message's id, and one that starts after that returns it as
a replay, if it is valid and the database answers. -/
theorem createComms_idempotent (settings : Settings) (p : Uuid) (k : String) {as : List Move}
    {w : State} (h : Run.Steps (system settings).step (keepsKey p k · ·) State.empty as w) :
    (ledgerOf w.shared p k = [] ∨ ∃ id, AcceptedOnce w.shared p k id) ∧
    ∀ t process r status id, w.ended t = some (.createComms process r, .ok (.comms status id)) →
      (Call.createComms process r).pair = some (p, k) →
      AcceptedOnce w.shared p k id ∧
      ∀ process' r' w1 bs w' a, (Call.createComms process' r').pair = some (p, k) →
        (system settings).step w (.start (.createComms process' r')) = some w1 →
        Run.Steps (system settings).step (keepsKey p k · ·) w1 bs w' →
        w'.ended w.threads.length = some (.createComms process' r', a) →
        a = .ok (.comms .ok id) ∨ ∃ e, a = .error e ∧
          ((∃ now, validate settings now r' = .error e) ∨ e = .database .connection) := by
  have hC : ∀ w a, keepsKey p k w a = true →
      (rules (.keeping p k) settings).Allows (post (.keeping p k) settings) w a :=
    fun _ _ ha => (permitted_of_keepsKey ha).allows_post
  have hw := holds_run (h.mono fun _ _ => permitted_of_keepsKey)
  refine ⟨?_, fun t process r status id ht hpair => ?_⟩
  · refine (hw.inv.once.once p k rfl).imp_right ?_
    rintro ⟨t, call, now, c, -, -, -, hl⟩
    exact ⟨c.commsRequestId, t, call, now, c, rfl, hl⟩
  · obtain ⟨_, _, hreply, key, hpair', hacc, -⟩ := hw.ended ht
    cases hreply
    cases hpair'.symm.trans hpair
    obtain ⟨honce, row, hrow, hp, hk, hid⟩ := hacc.once hw.inv.once rfl
    refine ⟨honce, fun process' r' w1 bs w' a hr' hs hrun ha => ?_⟩
    -- the request is held to what a retry returns
    have hend := hw.run_started hC rfl hs
      (Q := Ends (fun e _ => (∃ now, validate settings now r' = .error e) ∨
          e = .database .connection) fun reply _ => reply = .comms .ok id) ?_ hrun ha
    · cases a with
      | ok reply => exact .inl (congrArg _ hend)
      | error e => exact .inr ⟨e, rfl, hend⟩
    · obtain ⟨s', hx, rfl⟩ := Option.map_eq_some_iff.1 hs
      have hrow' : s'.db.Committed (.idempotency row) :=
        (startCall_others (m := .keeping _ _) hx 0).kept row (.inl (by rw [hp, hk]; rfl)) hrow
      refine (createComms_retry hrow' (by rw [hp, hk]; exact hr')
        (by rw [hp, hk]; rfl)).seq (fun reply s1 hreply => ?_) fun e _ he => he
      cases hreply
      exact Rules.Wp.ret fun _ _ => congrArg _ hid

end

/-- A request is accepted, and then a switch is engaged that blocks every request. -/
def acceptedThenBlocked : List Move :=
  Move.provision ++ ([.start (.createComms 0 (.sample "k" "+41"))] : List Move) ++
    Move.accept 0 10 ++ ([.env (.refresh 0 engagedSet)] : List Move)

/-- A request with the same key and another destination, started after that. -/
def retried : Call := .createComms 0 (.sample "k" "+42")

/-- What there is to check of its run. -/
def retriedCheck (w : State) : Bool :=
  decide (w.threads.length = 1) &&
  decide (w.ended 0 = some (.createComms 0 (.sample "k" "+41"), .ok (.comms .created ⟨12⟩))) &&
  (sampleSystem.step w (.start retried)).any fun w1 =>
    (Run.exec (fun s a => if keepsKey ⟨2⟩ "k" s a then sampleSystem.step s a else none) w1
      [.step 1 (.time 0), .step 1 .done]).any fun (w' : State) =>
        decide (w'.ended 1 = some (retried, .ok (.comms .ok ⟨12⟩)))

/-- It is answered with the id of the first. -/
theorem createComms_idempotent_retried :
    ∃ w w1 w',
      Run.Steps sampleSystem.step (keepsKey ⟨2⟩ "k" · ·) State.empty acceptedThenBlocked w ∧
      sampleSystem.step w (.start retried) = some w1 ∧
      Run.Steps sampleSystem.step (keepsKey ⟨2⟩ "k" · ·) w1 [.step 1 (.time 0), .step 1 .done] w' ∧
      AcceptedOnce w.shared ⟨2⟩ "k" ⟨12⟩ ∧
      w'.ended 1 = some (retried, .ok (.comms .ok ⟨12⟩)) := by
  obtain ⟨w, hw, hp⟩ := Run.Steps.exists_of_checked sampleSystem.step (keepsKey ⟨2⟩ "k")
    State.empty acceptedThenBlocked retriedCheck (by decide +kernel)
  obtain ⟨hp, hp'⟩ := Bool.and_eq_true_iff.1 hp
  obtain ⟨hlen, hend⟩ := Bool.and_eq_true_iff.1 hp
  obtain ⟨w1, hs, hp'⟩ := (Option.any_eq_true _ _).1 hp'
  obtain ⟨w', hw', hend'⟩ := Run.Steps.exists_of_checked _ _ _ _ _ hp'
  obtain ⟨honce, hretry⟩ := (@createComms_idempotent .sample .sample .sample .sample .sample ⟨2⟩ "k"
    _ w hw).2 0 _ _ _ _ (of_decide_eq_true hend) rfl
  refine ⟨w, w1, w', hw, hs, hw', honce, ?_⟩
  have ha := of_decide_eq_true hend'
  rcases hretry 0 _ w1 _ w' _ rfl hs hw' (of_decide_eq_true hlen ▸ ha) with h | ⟨e, h, -⟩
  · exact ha.trans (congrArg (fun a => some (retried, a)) h)
  · cases h

section
variable [KeyStore] [UuidCrate] [HmacSha256] [Aes256Gcm]

/-- In every run in which no sweep deletes a key that a call has found taken and not looked up
since, no call panics for want of the row. -/
theorem insertTransactional_ne_panicked (settings : Settings) {as : List Move} {w : State}
    (h : Run.Steps (system settings).step (keepsLostKeys · ·) State.empty as w) :
    (∀ t c, w.ended t ≠ some (.insertTransactional c, .error .panicked)) ∧
    ∀ t process r, w.ended t ≠ some (.createComms process r, .error .panicked) := by
  have hw := holds_run (h.mono fun _ _ => permitted_of_keepsLostKeys)
  refine ⟨fun t c ht => ?_, fun t process r ht => ?_⟩
  · rcases hw.ended ht with he | he | ⟨-, he⟩
    · cases he
    · cases he
    · exact he trivial
  · exact hw.ended ht rfl trivial

end

/-- The statements with which a message is accepted whose key is free. -/
def Move.insert (t : Nat) (now : Time) : List Move :=
  [.step t (.time now), .step t .done, .step t .done, .step t .done, .step t .done, .step t .done]

/-- One message is accepted. A second call finds its key taken and, when the row has expired, looks
it up. -/
def lostClaim (between : List Move) : List Move :=
  ([.start (.insertTransactional (.sample ⟨7⟩ "k"))] : List Move) ++ Move.insert 0 0 ++
    ([.start (.insertTransactional (.sample ⟨8⟩ "k")), .step 1 (.time 0), .step 1 .done,
      .step 1 .done, .step 1 .done] : List Move) ++ between ++ ([.step 1 .done] : List Move)

/-- A sweep of the next day leaves the row, and the second call replays the message. -/
theorem insertTransactional_ne_panicked_lostClaim :
    ∃ w, Run.Steps sampleSystem.step (keepsLostKeys · ·) State.empty
        (lostClaim [.env (.sweep day)]) w ∧
      w.ended 1 = some (.insertTransactional (.sample ⟨8⟩ "k"), .ok (.inserted (.replayed ⟨7⟩))) ∧
      ∀ t c, w.ended t ≠ some (.insertTransactional c, .error .panicked) := by
  obtain ⟨w, hw, hp⟩ := Run.Steps.exists_of_checked sampleSystem.step keepsLostKeys State.empty
    (lostClaim [.env (.sweep day)]) (fun w => w.ended 1 =
      some (.insertTransactional (.sample ⟨8⟩ "k"), .ok (.inserted (.replayed ⟨7⟩))))
    (by decide +kernel)
  exact ⟨w, hw, of_decide_eq_true hp,
    (@insertTransactional_ne_panicked .sample .sample .sample .sample .sample _ w hw).1⟩

/-- The sweep of the day on which the row expires deletes it: the second call panics. -/
theorem insertTransactional_panics :
    ∃ w, Run.Steps sampleSystem.step Run.Any State.empty (lostClaim [.env (.sweep (30 * day))]) w ∧
      w.ended 1 = some (.insertTransactional (.sample ⟨8⟩ "k"), .error .panicked) := by
  obtain ⟨w, hw, hp⟩ := Run.Steps.exists_of_exec sampleSystem.step State.empty
    (lostClaim [.env (.sweep (30 * day))]) (fun w => w.ended 1 =
      some (.insertTransactional (.sample ⟨8⟩ "k"), .error .panicked)) (by decide +kernel)
  exact ⟨w, hw, of_decide_eq_true hp⟩

end Messgr.Ingest
