import Messgr.Ingest.Runs

/-!
# Keys and ciphertexts of a run

Whatever calls run in whatever processes, a customer has at most one persisted key, and every call
returns, caches and encrypts under the key that unwrapping it gives (`customerDek_unique`). So what
`try_process` decrypts of a message is what the request asked for that was accepted, and every
address decrypts to the destination it was created for (`ciphertexts_decrypt`). No condition on the
run is needed.
-/

namespace Messgr.Ingest

open Tx (Store)

theorem permitted_any {w : State} {a : Move} : Permitted .any w a where
  start _ _ hm := hm.elim
  sweep _ _ _ _ _ := ⟨nofun, nofun⟩

section
variable [KeyStore] [UuidCrate] [HmacSha256] [Aes256Gcm]

/-- In every run a customer has at most one key, for good. Every call of `get_or_create_dek` that
succeeds returns what unwrapping it gives, after `pre_provision_deks` every customer has one, every
cached key is the customer's, and every address is encrypted under the customer's. -/
theorem customerDek_unique (settings : Settings) {as : List Move} {w : State}
    (h : Run.Steps (system settings).step Run.Any State.empty as w) :
    (∀ bs w', Run.Steps (system settings).step Run.Any w bs w' → ∀ d d',
      w.shared.db.Committed (.customerDek d) → w'.shared.db.Committed (.customerDek d') →
      d.customerId = d'.customerId → d = d') ∧
    (∀ t process c reply, w.ended t = some (.getOrCreateDek process c, .ok reply) →
      ∃ p, reply = .dek p ∧ HasDek settings w.shared c p) ∧
    (∀ t cs reply, w.ended t = some (.preProvisionDeks cs, .ok reply) →
      ∀ c ∈ cs, ∃ d, w.shared.db.Committed (.customerDek d) ∧ d.customerId = c) ∧
    (∀ process ∈ w.shared.processes, ∀ e ∈ process.dekCache.entries,
      HasDek settings w.shared e.key e.plaintext) ∧
    ∀ a, w.shared.db.Committed (.address a) → ∃ p destination,
      HasDek settings w.shared a.customerId p ∧
      decrypt p a.id.asBytes a.valueCiphertext = .ok (asBytes destination) := by
  have hC : ∀ w a, Run.Any w a → (rules .any settings).Allows (post .any settings) w a :=
    fun _ _ _ => permitted_any.allows_post
  have hw := holds_run (h.mono fun _ _ _ => permitted_any)
  refine ⟨fun bs w' hrun d d' hd hd' hc => ?_, fun t process c reply ht => hw.ended ht,
    fun t cs reply ht => ?_, hw.inv.caches, fun a ha => ?_⟩
  · have hg : Grows w.shared w'.shared := (hw.run_others hC hrun (Nat.le_refl _)).toGrows
    have hd1 : w'.shared.db.Committed (.customerDek d) := hg.committed _ trivial hd
    cases hd1.eq_of_key hd' (Row.customerDek_mem_keys.2 ⟨d, rfl, rfl⟩)
      (Row.customerDek_mem_keys.2 ⟨d', rfl, hc.symm⟩)
    rfl
  · obtain ⟨o, -, -, hall⟩ := hw.ended ht
    exact hall
  · obtain ⟨wr, hwr, hrow⟩ := hw.inv.written.addressWritten a ha
    obtain ⟨-, p, destination, hp, -, hdec⟩ := hw.inv.written.address wr hwr a hrow
    exact ⟨p, destination, hp, hdec⟩

end

/-- Two processes ask for the key of one customer and both find none. -/
def keyRace : List Move :=
  [.env (.startProcess .sample 1000), .env (.startProcess .sample 1000),
   .start (.getOrCreateDek 0 ⟨1⟩), .start (.getOrCreateDek 1 ⟨1⟩),
   .step 0 (.time 0), .step 1 (.time 0), .step 0 .done, .step 1 .done,
   .step 0 (.created (.sample 3)), .step 1 (.created (.sample 4)), .step 0 (.time 0),
   .step 1 (.time 0), .step 0 .done, .step 1 .done, .step 1 .done, .step 1 .done,
   .step 0 (.time 0), .step 1 (.time 0)]

/-- Both return the key that was persisted. -/
theorem customerDek_unique_keyRace :
    ∃ w, Run.Steps sampleSystem.step Run.Any State.empty keyRace w ∧
      w.ended 0 = some (.getOrCreateDek 0 ⟨1⟩, .ok (.dek (Dek.sample 3).plaintext)) ∧
      w.ended 1 = some (.getOrCreateDek 1 ⟨1⟩, .ok (.dek (Dek.sample 3).plaintext)) ∧
      @HasDek .sample .sample w.shared ⟨1⟩ (Dek.sample 3).plaintext := by
  obtain ⟨w, hw, hp⟩ := Run.Steps.exists_of_exec sampleSystem.step State.empty keyRace
    (fun w => w.ended 0 = some (.getOrCreateDek 0 ⟨1⟩, .ok (.dek (Dek.sample 3).plaintext)) &&
      w.ended 1 = some (.getOrCreateDek 1 ⟨1⟩, .ok (.dek (Dek.sample 3).plaintext)))
    (by decide +kernel)
  simp only [Bool.and_eq_true, decide_eq_true_eq] at hp
  obtain ⟨p, hp0, hdek⟩ := (@customerDek_unique .sample .sample .sample .sample .sample _ w hw).2.1
    0 _ _ _ hp.1
  cases hp0
  exact ⟨w, hw, hp.1, hp.2, hdek⟩

section
variable [KeyStore] [UuidCrate] [HmacSha256] [Aes256Gcm]

/-- In every run: a request that is accepted has a ledger row; what `try_process` decrypts of it is
the destination and the rendered body of that request, and it fails for an outage or an empty queue
only, unless the row is not one of a request; and every address decrypts, under the key of its
customer and with its id, to the destination of the call that wrote it. -/
theorem ciphertexts_decrypt (settings : Settings) {as : List Move} {w : State}
    (h : Run.Steps (system settings).step Run.Any State.empty as w) :
    (∀ t process r id, w.ended t = some (.createComms process r, .ok (.comms .created id)) →
      Recorded w.shared t (.createComms process r) id) ∧
    (∀ u process id row destination body,
      w.ended u = some (.tryProcess process id, .ok (.decrypted row destination body)) →
      row.commsRequestId = id ∧
      ∀ t process r q, ⟨t, .createComms process r, .commsRequest q⟩ ∈ w.shared.history →
        q.id = row.commsRequestId → q.createdAt = row.createdAt →
        destination = r.body.destination ∧ Rendered settings w.shared r q.customerId body) ∧
    (∀ u process id e, w.ended u = some (.tryProcess process id, .error e) →
      Outage e w.shared ∨ e = .database .rowNotFound ∨ Foreign w.shared id) ∧
    ∀ a, w.shared.db.Committed (.address a) →
      ∃ wr ∈ w.shared.history, wr.row = .address a ∧ AddressOf settings w.shared wr.call a := by
  have hw := holds_run (h.mono fun _ _ _ => permitted_any)
  refine ⟨fun t process r id ht => ?_, fun u process id row destination body hu => ?_,
    fun u process id e hu => hw.ended hu, fun a ha => ?_⟩
  · obtain ⟨_, _, hreply, _, -, -, hrec⟩ := hw.ended ht
    cases hreply
    exact hrec rfl
  · obtain ⟨_, _, _, hreply, hid, hread⟩ := hw.ended hu
    cases hreply
    refine ⟨hid, fun t process r q hq hqid hqat => ?_⟩
    obtain ⟨hcom, hreq⟩ := hw.inv.written.request _ hq q rfl
    exact hread.of_request hcom hqid hqat (hreq process r rfl)
  · obtain ⟨wr, hwr, hrow⟩ := hw.inv.written.addressWritten a ha
    exact ⟨wr, hwr, hrow, (hw.inv.written.address wr hwr a hrow).2⟩

end

/-- A request is accepted, and a process claims its message. -/
def acceptedAndRead : List Move :=
  Move.provision ++ ([.start (.createComms 0 (.sample "k" "+41"))] : List Move) ++
    Move.accept 0 10 ++
    ([.env (.startProcess .sample 1000), .start (.tryProcess 1 ⟨12⟩), .step 1 .done, .step 1 .done,
      .step 1 (.time 0), .step 1 .done, .step 1 .done, .step 1 (.time 0)] : List Move)

/-- The queue row of the message. -/
def acceptedRow : OutboxRow where
  commsRequestId := ⟨12⟩
  createdAt := 0
  channel := "sms"
  msgClass := .transactional
  priority := 1
  customerId := ⟨10⟩
  addressId := ⟨11⟩
  producerId := ⟨2⟩
  campaignId := none
  nextAttemptAt := 0
  expiresAt := none
  cancelledAt := none
  attempts := 0
  leasedUntil := none

/-- Another process reads back the destination and the body. -/
theorem ciphertexts_decrypt_acceptedAndRead :
    ∃ w, Run.Steps sampleSystem.step Run.Any State.empty acceptedAndRead w ∧
      Recorded w.shared 0 (.createComms 0 (.sample "k" "+41")) ⟨12⟩ ∧
      w.ended 1 = some (.tryProcess 1 ⟨12⟩, .ok (.decrypted acceptedRow "+41" "hello")) := by
  obtain ⟨w, hw, hp⟩ := Run.Steps.exists_of_exec sampleSystem.step State.empty acceptedAndRead
    (fun w => w.ended 0 =
        some (.createComms 0 (.sample "k" "+41"), .ok (.comms .created ⟨12⟩)) &&
      w.ended 1 = some (.tryProcess 1 ⟨12⟩, .ok (.decrypted acceptedRow "+41" "hello")))
    (by decide +kernel)
  simp only [Bool.and_eq_true, decide_eq_true_eq] at hp
  exact ⟨w, hw, (@ciphertexts_decrypt .sample .sample .sample .sample .sample _ w hw).1 0 _ _ _
    hp.1, hp.2⟩

end Messgr.Ingest
