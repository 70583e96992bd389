import Messgr.Ingest.Runs

/-!
# Resolution is free of races

From a tenant just provisioned on, whatever requests resolve and wherever they abort: a destination
has one active address, the ranks of a customer's addresses have no gaps and no duplicates, no call
runs into a violated index, keys and addresses have their customer, and all calls for one
destination return the same address (`resolve_raceFree`).
-/

namespace Messgr.Ingest

open Tx (Store)

/-- No call creates a key for another customer than the one it resolves to. -/
def resolvesOnly (_ : State) : Move → Bool
  | .start call => call.ownKeys
  | _ => true

/-- Keys are created for customers only. -/
def Mode.resolving : Mode := ⟨fun _ => False, False, True⟩

theorem permitted_of_resolvesOnly {w : State} {a : Move} (h : resolvesOnly w a = true) :
    Permitted .resolving w a where
  start call ha _ := by
    subst ha
    exact h
  sweep _ _ _ _ _ := ⟨nofun, nofun⟩

section
variable [KeyStore] [UuidCrate] [HmacSha256] [Aes256Gcm]

/-- In every run of resolutions, alone or as part of requests, every state has at most one active
address per destination, ranks from one on without gaps or duplicates, and a customer for every key
and address. No resolution fails but for an outage or a key that is not one of AES-256, while
the ranks suffice. Any two of one destination and kind return the same customer and address. -/
theorem resolve_raceFree (settings : Settings) {as : List Move} {w : State}
    (h : Run.Steps (system settings).step (resolvesOnly · ·) State.empty as w) :
    (∀ a a', w.shared.db.Committed (.address a) → w.shared.db.Committed (.address a') →
      a.activeTo = none → a'.activeTo = none → a.kind = a'.kind → a.valueHmac = a'.valueHmac →
      a = a') ∧
    (∀ c kind, (∃ n, RankedTo w.shared c kind n) ∧
      ∀ a a', w.shared.db.Committed (.address a) → w.shared.db.Committed (.address a') →
        a.ActiveFor c kind → a'.ActiveFor c kind → a.rank = a'.rank → a = a') ∧
    (∀ d, w.shared.db.Committed (.customerDek d) → Published w.shared d.customerId) ∧
    (∀ a, w.shared.db.Committed (.address a) → Published w.shared a.customerId) ∧
    (∀ t process input destination channel e,
      w.ended t = some (.resolve process input destination channel, .error e) →
      (kindForChannel channel).isSome →
      (∀ c kind n, RankedTo w.shared c kind n → n < Program.smallintMax) →
      Outage e w.shared ∨ ∃ x, e = .encryption x) ∧
    ∀ t process input channel r u process' input' channel' r' destination,
      w.ended t = some (.resolve process input destination channel, .ok (.resolved r)) →
      w.ended u = some (.resolve process' input' destination channel', .ok (.resolved r')) →
      kindForChannel channel = kindForChannel channel' →
      r.customerId = r'.customerId ∧ r.addressId = r'.addressId := by
  have hw := holds_run (h.mono fun _ _ => permitted_of_resolvesOnly)
  refine ⟨fun a a' ha ha' hact hact' hkind hhmac => ?_, fun c kind => ⟨hw.inv.ranks c kind,
    fun a a' ha ha' hfor hfor' hrank => ?_⟩, hw.inv.customers trivial,
    fun a ha => .of_refs ha (by simp [Row.refs]),
    fun t process input destination channel e ht hch hn => ?_,
    fun t process input channel r u process' input' channel' r' destination ht hu hch => ?_⟩
  · cases ha.eq_of_key ha' (Row.activeHmac_mem_keys.2 ⟨a, rfl, rfl, rfl, hact⟩)
      (Row.activeHmac_mem_keys.2 ⟨a', rfl, hkind.symm, hhmac.symm, hact'⟩)
    rfl
  · cases ha.eq_of_key ha'
      (Row.activeRank_mem_keys.2 ⟨a, rfl, hfor.1, hfor.2.1, hfor.2.2, rfl⟩)
      (Row.activeRank_mem_keys.2 ⟨a', rfl, hfor'.1, hfor'.2.1, hfor'.2.2, hrank.symm⟩)
    rfl
  · rcases hw.ended ht with (he | he | ⟨-, a, ha, hact, hrank⟩) | ⟨-, he⟩
    · exact .inl he
    · exact .inr he
    · -- the last rank is taken
      obtain ⟨n, hranked⟩ := hw.inv.ranks a.customerId a.kind
      have := (hranked a.rank).1 ⟨a, ha, ⟨rfl, rfl, hact⟩, rfl⟩
      have := hn _ _ n hranked
      omega
    · rw [he] at hch
      cases hch
  · obtain ⟨_, kind, hr, hk, hto⟩ := hw.ended ht
    obtain ⟨_, kind', hr', hk', hto'⟩ := hw.ended hu
    cases hr
    cases hr'
    rw [hch, hk'] at hk
    cases hk
    exact hto.agree hto'

end

/-- Two requests for one destination both find no address; the last to start commits first. -/
def addressRace : List Move :=
  [.env (.startProcess .sample 1000),
   .start (.resolve 0 .addressOnly "+41" "sms"), .start (.resolve 0 .addressOnly "+41" "sms"),
   .step 0 .done, .step 1 .done, .step 0 (.uuid ⟨10⟩), .step 1 (.uuid ⟨20⟩), .step 0 (.uuid ⟨11⟩),
   .step 1 (.uuid ⟨21⟩), .step 0 (.time 0), .step 1 (.time 0), .step 0 (.created (.sample 3)),
   .step 1 (.created (.sample 4)), .step 0 (.nonce .sample), .step 1 (.nonce .sample),
   .step 0 .done, .step 1 .done, .step 0 .done, .step 1 .done, .step 1 .done, .step 1 .done,
   .step 1 .done, .step 1 (.time 0), .step 0 .done, .step 0 .done, .step 0 .done]

/-- Both return its address. -/
theorem resolve_raceFree_addressRace :
    ∃ w, Run.Steps sampleSystem.step (resolvesOnly · ·) State.empty addressRace w ∧
      w.ended 0 = some (.resolve 0 .addressOnly "+41" "sms", .ok (.resolved ⟨⟨20⟩, ⟨21⟩, none⟩)) ∧
      w.ended 1 = some (.resolve 0 .addressOnly "+41" "sms", .ok (.resolved ⟨⟨20⟩, ⟨21⟩, none⟩)) ∧
      (∃ n, RankedTo w.shared ⟨20⟩ .msisdn n) ∧
      ∀ a, w.shared.db.Committed (.address a) → Published w.shared a.customerId := by
  obtain ⟨w, hw, hp⟩ := Run.Steps.exists_of_checked sampleSystem.step resolvesOnly State.empty
    addressRace (fun w =>
      w.ended 0 = some (.resolve 0 .addressOnly "+41" "sms", .ok (.resolved ⟨⟨20⟩, ⟨21⟩, none⟩)) &&
      w.ended 1 = some (.resolve 0 .addressOnly "+41" "sms", .ok (.resolved ⟨⟨20⟩, ⟨21⟩, none⟩)))
    (by decide +kernel)
  simp only [Bool.and_eq_true, decide_eq_true_eq] at hp
  have hthm := @resolve_raceFree .sample .sample .sample .sample .sample _ w hw
  exact ⟨w, hw, hp.1, hp.2, (hthm.2.1 ⟨20⟩ .msisdn).1, hthm.2.2.2.1⟩

end Messgr.Ingest
