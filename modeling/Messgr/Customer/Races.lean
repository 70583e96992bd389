import Messgr.Customer.Dek

/-!
# Resolution under races

What `resolve` (`src/customer/resolve.rs`) returns, whatever other calls do between its statements:
a committed active address of the destination, with its customer (`resolve_spec`). Ranks are handed
out under the lock of the customer's row, so that the rank a call has computed is still the next one
when it commits (`CommitOk.of_address`); a call that loses the race for a destination finds the
winner's row.
-/

namespace Messgr.Ingest

open List Option Row
open Tx (Store)

/-! ## Rows and what they reference -/

section
variable {s s' : Shared Call} {t : Nat} {call : Call} {c : Uuid} {kind : AddressKind} {n : Nat}
variable {settings : Settings}

/-- A customer that a committed row references is there. -/
theorem Published.of_refs {row : Row} (h : s.db.Committed row) (hc : .customer c ∈ row.refs) :
    Published s c := by
  obtain ⟨row', hr, hk⟩ := h.refs hc
  obtain ⟨r, rfl, hid⟩ := customer_mem_keys.1 hk
  exact ⟨r, hr, hid⟩

/-- A customer of the transaction is there after its commit. -/
theorem Published.of_pending {r : Customer} (h : .customer r ∈ s.db.pending t) :
    Published (s.commit t call) r.id :=
  ⟨r, Store.committed_commit.2 (.inr h), rfl⟩

/-- A key of the transaction is persisted after its commit. -/
theorem HasDek.of_pending [KeyStore] {d : CustomerDek} {p : Bytes}
    (hd : .customerDek d ∈ s.db.pending t)
    (hu : KeyStore.unwrapDek settings.vaultMount d.wrappedDek = some p) :
    HasDek settings (s.commit t call) d.customerId p :=
  ⟨d, Store.committed_commit.2 (.inr hd), rfl, hu⟩

theorem Published.usable [KeyStore] [Aes256Gcm] {m : Mode} (h : Published s c)
    (hinv : Inv m settings s) : Usable s c := by
  refine ⟨?_, fun _ _ => h.mentioned⟩
  obtain ⟨row, hr, hid⟩ := h.mentioned
  exact hinv.ids.known _ hr c hid

theorem Fresh.not_committed {id : Uuid} (h : Fresh t s id) {row : Row} (hid : id ∈ row.ids) :
    ¬ s.db.Committed row :=
  fun hr => h.unmentioned ⟨row, hr, hid⟩

/-! ## Ranks -/

/-- The ranks that a query in the transaction finds are the committed ones. -/
theorem mem_activeRanks {rank : Nat} (hp : s.db.pending t = []) :
    rank ∈ Program.activeRanks c kind (s.db.visible (some t)) ↔
      ∃ a, s.db.Committed (.address a) ∧ a.ActiveFor c kind ∧ a.rank = rank := by
  simp only [Program.activeRanks, List.mem_map, mem_filter, mem_filterMap,
    address?_eq_some, Store.mem_visible_some, hp, not_mem_nil, or_false,
    Bool.and_eq_true, decide_eq_true_eq, isNone_iff_eq_none, CustomerAddress.ActiveFor,
    and_assoc]
  constructor
  · rintro ⟨a, ⟨row, hr, rfl⟩, h1, h2, h3, h4⟩
    exact ⟨a, hr, h1, h2, h3, h4⟩
  · rintro ⟨a, hr, h1, h2, h3, h4⟩
    exact ⟨a, ⟨_, hr, rfl⟩, h1, h2, h3, h4⟩

/-- The largest of them is their number. -/
theorem RankedTo.max?_activeRanks (h : RankedTo s c kind n) (hp : s.db.pending t = []) :
    (Program.activeRanks c kind (s.db.visible (some t))).max?.getD 0 = n := by
  have hmem : ∀ rank, rank ∈ Program.activeRanks c kind (s.db.visible (some t)) ↔
      1 ≤ rank ∧ rank ≤ n := fun rank => (mem_activeRanks hp).trans (h rank)
  cases hmax : (Program.activeRanks c kind (s.db.visible (some t))).max? with
  | none =>
    rw [max?_eq_none_iff] at hmax
    have := (hmem n).not.1 (by simp [hmax])
    simp only [getD_none]
    omega
  | some k =>
    obtain ⟨hk, hle⟩ := max?_eq_some_iff.1 hmax
    have h1 := (hmem k).1 hk
    have h2 := hle n ((hmem n).2 (by omega))
    simp only [getD_some]
    omega

/-- A customer that is not there has no addresses. -/
theorem Fresh.rankedTo_zero (h : Fresh t s c) (kind : AddressKind) : RankedTo s c kind 0 := by
  refine fun rank => ⟨?_, fun h => by omega⟩
  rintro ⟨a, ha, hfor, -⟩
  exact absurd ha (h.not_committed (by simp [Row.ids, hfor.1]))

/-- While the customer's row is locked its addresses stay the same. -/
theorem RankedTo.locked (h : RankedTo s c kind n) (hl : (t, .customer c) ∈ s.db.locks)
    (hs : HoldsLocks t s s') : RankedTo s' c kind n :=
  (rankedTo_congr fun a ha => ⟨hs.locked _ hl _ (by simp [Row.refs, ha.1]),
    hs.committed _ trivial⟩).2 h

/-- One more address takes the next rank. -/
theorem RankedTo.commit {a : CustomerAddress} (h : RankedTo s c kind n)
    (ha : .address a ∈ s.db.pending t) (honly : ∀ a', .address a' ∈ s.db.pending t → a' = a)
    (hfor : a.ActiveFor c kind) (hrank : a.rank = n + 1) :
    RankedTo (s.commit t call) c kind (n + 1) := by
  intro rank
  constructor
  · rintro ⟨a', ha', hfor', rfl⟩
    rcases Store.committed_commit.1 ha' with ha' | ha'
    · have := (h a'.rank).1 ⟨a', ha', hfor', rfl⟩
      omega
    · cases honly a' ha'
      omega
  · intro hr
    by_cases hn : rank ≤ n
    · obtain ⟨a', ha', h⟩ := (h rank).2 ⟨hr.1, hn⟩
      exact ⟨a', Store.committed_commit.2 (.inl ha'), h⟩
    · exact ⟨a, Store.committed_commit.2 (.inr ha), hfor, by omega⟩

end

/-! ## Commits -/

section
variable [KeyStore] [Aes256Gcm]
variable {m : Mode} {settings : Settings} {s : Shared Call} {t : Nat} {call : Call}
variable {a : CustomerAddress} {destination : String}

/-- A transaction that writes customers and external ids only. -/
theorem CommitOk.of_customers (hinv : Inv m settings s)
    (hp : ∀ row ∈ s.db.pending t, (∃ r, row = .customer r) ∨ ∃ r, row = .externalId r) :
    CommitOk m settings t call s where
  address a ha := by rcases hp _ ha with ⟨r, h⟩ | ⟨r, h⟩ <;> cases h
  request q hq := by rcases hp _ hq with ⟨r, h⟩ | ⟨r, h⟩ <;> cases h
  ranks c k := by
    obtain ⟨n, hn⟩ := hinv.ranks c k
    refine ⟨n, (rankedTo_congr fun a _ => ?_).2 hn⟩
    refine Store.committed_commit.trans ⟨fun h => h.resolve_right fun ha => ?_, .inl⟩
    rcases hp _ ha with ⟨r, h⟩ | ⟨r, h⟩ <;> cases h
  customers _ d hd := by rcases hp _ hd with ⟨r, h⟩ | ⟨r, h⟩ <;> cases h
  ledger := .inl fun row hr => by rcases hp _ hr with ⟨r, rfl⟩ | ⟨r, rfl⟩ <;> rfl

/-- A transaction that writes an address behind the customer's others, and maybe the customer and
its key. -/
theorem CommitOk.of_address {n : Nat} (hinv : Inv m settings s)
    (hp : ∀ row ∈ s.db.pending t, row = .address a ∨ (∃ r, row = .customer r) ∨
      ∃ d, row = .customerDek d ∧ d.customerId = a.customerId) (ha : .address a ∈ s.db.pending t)
    (hactive : a.activeTo = none) (hranked : RankedTo s a.customerId a.kind n)
    (hrank : a.rank = n + 1) (hpub : Published (s.commit t call) a.customerId)
    (haddr : AddressOf settings (s.commit t call) call a) : CommitOk m settings t call s := by
  have honly : ∀ a', .address a' ∈ s.db.pending t → a' = a := by
    intro a' ha'
    rcases hp _ ha' with h | ⟨r, h⟩ | ⟨d, h, -⟩ <;> cases h
    rfl
  exact {
    address := fun a' ha' => by rwa [honly a' ha']
    request := fun q hq => by rcases hp _ hq with h | ⟨r, h⟩ | ⟨d, h, -⟩ <;> cases h
    ranks := fun c k => by
      by_cases hck : a.ActiveFor c k
      · obtain ⟨rfl, rfl, -⟩ := hck
        exact ⟨n + 1, hranked.commit ha honly ⟨rfl, rfl, hactive⟩ hrank⟩
      · obtain ⟨n', hn'⟩ := hinv.ranks c k
        refine ⟨n', (rankedTo_congr fun a' hfor => ?_).2 hn'⟩
        refine Store.committed_commit.trans ⟨fun h => h.resolve_right fun ha' => ?_, .inl⟩
        exact hck (honly a' ha' ▸ hfor)
    customers := fun _ d hd => by
      rcases hp _ hd with h | ⟨r, h⟩ | ⟨d', h, hc⟩ <;> cases h
      rwa [hc]
    ledger := .inl fun row hr => by
      rcases hp _ hr with rfl | ⟨r, rfl⟩ | ⟨d, rfl, -⟩ <;> rfl }

/-- A transaction that writes a new customer, an address and a key. -/
theorem CommitOk.of_minted {r : Customer} {d : CustomerDek} {p : Bytes} (hinv : Inv m settings s)
    (hp : s.db.pending t = [.customer r, .address a, .customerDek d]) (hr : r.id = a.customerId)
    (hd : d.customerId = a.customerId) (hc : Fresh t s a.customerId) (hactive : a.activeTo = none)
    (hrank : a.rank = 1) (hu : KeyStore.unwrapDek settings.vaultMount d.wrappedDek = some p)
    (hdest : call.destination = some destination)
    (hdec : decrypt p a.id.asBytes a.valueCiphertext = .ok (asBytes destination)) :
    CommitOk m settings t call s := by
  refine .of_address hinv (fun row hrow => ?_) (by simp [hp]) hactive (hc.rankedTo_zero a.kind)
    hrank ?_ ⟨p, destination, ?_, hdest, hdec⟩
  · simp only [hp, mem_cons, not_mem_nil, or_false] at hrow
    rcases hrow with rfl | rfl | rfl
    · exact .inr (.inl ⟨r, rfl⟩)
    · exact .inl rfl
    · exact .inr (.inr ⟨d, rfl, hd⟩)
  · rw [← hr]
    exact .of_pending (by simp [hp])
  · rw [← hd]
    exact .of_pending (by simp [hp]) hu

/-- A transaction that writes one address, of a customer that is there. -/
theorem CommitOk.of_ranked {n : Nat} {p : Bytes} (hinv : Inv m settings s)
    (hp : s.db.pending t = [.address a]) (hc : Published s a.customerId)
    (hactive : a.activeTo = none) (hranked : RankedTo s a.customerId a.kind n)
    (hrank : a.rank = n + 1) (hdek : HasDek settings s a.customerId p)
    (hdest : call.destination = some destination)
    (hdec : decrypt p a.id.asBytes a.valueCiphertext = .ok (asBytes destination)) :
    CommitOk m settings t call s :=
  .of_address hinv (fun row hrow => .inl (by simpa [hp] using hrow)) (by simp [hp]) hactive hranked
    hrank (hc.grows .commit) ⟨p, destination, hdek.grows .commit, hdest, hdec⟩

end

/-! ## The programs -/

/-- What a resolution returns: a committed active address of the destination, its customer, and the
customer's locale. -/
structure ResolvedTo (kind : AddressKind) (valueHmac : Bytes) (s : Shared Call) (r : Resolved) :
    Prop where
  address : ∃ a, s.db.Committed (.address a) ∧ a.id = r.addressId ∧ a.customerId = r.customerId ∧
    a.kind = kind ∧ a.valueHmac = valueHmac ∧ a.activeTo = none
  locale : LocaleOf s r.customerId r.locale

/-- How a resolution fails: an outage, a key that is not one of AES-256, or no rank left. -/
def Unresolved (e : CallError) (s : Shared Call) : Prop :=
  Outage e s ∨ (∃ x, e = .encryption x) ∨ e = .rankOverflow ∧
    ∃ a, s.db.Committed (.address a) ∧ a.activeTo = none ∧ a.rank = Program.smallintMax

section
variable {s s' : Shared Call} {kind : AddressKind} {valueHmac : Bytes} {r : Resolved}

theorem ResolvedTo.published (h : ResolvedTo kind valueHmac s r) : Published s r.customerId := by
  obtain ⟨a, ha, -, hc, -⟩ := h.address
  exact .of_refs ha (by simp [Row.refs, hc])

theorem ResolvedTo.grows (h : ResolvedTo kind valueHmac s r) (hg : Grows s s') :
    ResolvedTo kind valueHmac s' r := by
  obtain ⟨⟨a, ha, h⟩, hl⟩ := h
  exact ⟨⟨a, hg.committed _ trivial ha, h⟩, hl.grows hg⟩

/-- Two resolutions of one destination return the same address. -/
theorem ResolvedTo.agree {r' : Resolved} (h : ResolvedTo kind valueHmac s r)
    (h' : ResolvedTo kind valueHmac s r') :
    r.customerId = r'.customerId ∧ r.addressId = r'.addressId := by
  obtain ⟨a, ha, hid, hc, hk⟩ := h.address
  obtain ⟨a', ha', hid', hc', hk'⟩ := h'.address
  cases ha.eq_of_key ha' (activeHmac_mem_keys.2 ⟨a, rfl, hk⟩) (activeHmac_mem_keys.2 ⟨a', rfl, hk'⟩)
  exact ⟨hc.symm.trans hc', hid.symm.trans hid'⟩

theorem LocaleOf.none {c : Uuid} : LocaleOf s c none := nofun

/-- The locale of a row that was looked up, if it was there. -/
theorem LocaleOf.of_row {row : Option Customer} {c : Uuid}
    (h : ∀ r, row = some r → s.db.Committed (.customer r) ∧ r.id = c) :
    LocaleOf s c (row.bind nonProvisionalLocale) := by
  intro l hl
  obtain ⟨r, hr, hloc⟩ := bind_eq_some_iff.1 hl
  exact ⟨r, (h r hr).1, (h r hr).2, hloc⟩

end

section
variable [KeyStore] [UuidCrate] [HmacSha256] [Aes256Gcm]
variable {m : Mode} {settings : Settings} {s : Shared Call} {t : Nat} {call : Call}
variable {process : Nat} {kind : AddressKind} {valueHmac : Bytes} {destination : String} {c : Uuid}
variable {externalId : String} {input : ResolutionInput} {locale : Option String}

open Program

/-- The row that is found is committed; a published one is found. -/
theorem findById_spec : Wp m settings t call
      (Ends Outage fun row s' => Grows s s' ∧
        (∀ r, row = some r → s'.db.Committed (.customer r) ∧ r.id = c) ∧
        (Published s c → row.isSome)) (findById c) s := by
  refine wp_fetchOptional (f := pure) customer?_eq_some (fun _ => .inl rfl)
    (fun s1 r _ h1 hr hid => ?_) fun s1 _ h1 hno => ?_
  · refine .ret fun s2 h2 => ⟨(h1.trans h2.toSame).toGrows, ?_, fun _ => rfl⟩
    rintro _ ⟨⟩
    exact ⟨h2.committed _ trivial hr, of_decide_eq_true hid⟩
  · refine .ret fun s2 h2 => ⟨(h1.trans h2.toSame).toGrows, nofun, fun hpub => ?_⟩
    obtain ⟨r, hr, rfl⟩ := hpub.grows h1.toGrows
    simpa using hno r hr

/-- An alias names a customer. -/
theorem expandAlias_spec {hops : Nat} (hc : Usable s c) :
    Wp m settings t call (Ends Outage fun c' s' => Grows s s' ∧ Usable s' c')
      (expandAlias hops c) s := by
  induction hops generalizing s c with
  | zero => exact .ret fun s1 h1 => ⟨h1.toGrows, hc.grows h1.toGrows⟩
  | succ hops ih =>
    refine wp_fetchOptional alias?_eq_some (fun _ => .inl rfl) (fun s1 r hinv h1 hr _ => ?_)
      fun s1 _ h1 _ => ?_
    · have hpub : Published s1 r.customerId := .of_refs hr (by simp [Row.refs])
      exact wp_imp (ih (hpub.usable hinv)) (fun c' s2 h2 => ⟨h1.toGrows.trans h2.1, h2.2⟩)
        fun e s2 he => he
    · refine .ret fun s2 h2 => ?_
      have hg := (h1.trans h2.toSame).toGrows
      exact ⟨hg, hc.grows hg⟩

/-- The customer of a supplied id is there afterwards, whoever was first. -/
theorem mintProvisionalCustomer_spec (hc : Usable s c) :
    Wp m settings t call (Ends Outage fun _ s' => Grows s s' ∧ Published s' c)
      (mintProvisionalCustomer settings c) s := by
  have hdb : ∀ s' : Shared Call, Outage (.database .connection) s' := fun _ => .inl rfl
  refine wp_begin hdb fun s1 h1 hp1 => wp_now fun now s2 h2 => ?_
  have h := h1.toGrows.trans h2.toGrows
  have hp2 : s2.db.pending t = [] := h2.pending.trans hp1
  refine wp_insertTx hdb ?_ (fun s3 h3 hp3 => ?_) (fun s3 row k h3 hseen hk hkr _ => ?_)
    (fun _ row k _ _ hno hk hkr => absurd hkr (hno k hk)) fun _ k _ hk => nomatch hk
  · intro id hid
    cases mem_singleton.1 hid
    exact (hc.grows h).usableBy t
  · rw [hp2, nil_append] at hp3
    refine wp_commit (f := pure) hdb (fun s4 hinv h4 => .of_customers hinv fun row hr => ?_)
      fun s4 _ h4 => .ret fun s5 h5 => ?_
    · rw [h4.pending, hp3] at hr
      exact .inl ⟨_, mem_singleton.1 hr⟩
    · have hpub : Published (s4.commit t call) (settings.provisional c now).id :=
        .of_pending (by rw [h4.pending, hp3]; exact .head _)
      exact ⟨h.trans (h3.toGrows.trans (h4.toGrows.trans (Grows.commit.trans h5.toGrows))),
        hpub.grows h5.toGrows⟩
  · -- another call was first
    cases mem_singleton.1 hk
    obtain ⟨r, rfl, hrid⟩ := customer_mem_keys.1 hkr
    have hpub : Published s3 c := ⟨r, hseen.resolve_right (by simp [hp2]), hrid⟩
    refine wp_commit (f := pure) hdb (fun s4 hinv h4 => .of_customers hinv fun row hr => ?_)
      fun s4 _ h4 => .ret fun s5 h5 => ?_
    · rw [h4.pending, h3.pending, hp2] at hr
      cases hr
    · have hg : Grows s3 s5 := h4.toGrows.trans (Grows.commit.trans h5.toGrows)
      exact ⟨h.trans (h3.toGrows.trans hg), hpub.grows hg⟩

/-- A committed external id leads to its customer. -/
theorem findCustomerByExternalId_spec {system : String} : Wp m settings t call
      (Ends Outage fun c s' => Grows s s' ∧ (∀ c', c = some c' → Published s' c') ∧
        ((∃ r, s.db.Committed (.externalId r) ∧ r.system = system ∧ r.externalId = externalId) →
          c.isSome)) (findCustomerByExternalId system externalId) s := by
  refine wp_fetchOptional externalId?_eq_some (fun _ => .inl rfl) (fun s1 r _ h1 hr _ => ?_)
    fun s1 _ h1 hno => ?_
  · refine .ret fun s2 h2 => ⟨(h1.trans h2.toSame).toGrows, ?_, fun _ => rfl⟩
    rintro _ ⟨⟩
    have hr2 : s2.db.Committed (.externalId r) := h2.committed _ trivial hr
    exact .of_refs hr2 (by simp [Row.refs])
  · refine .ret fun s2 h2 => ⟨(h1.trans h2.toSame).toGrows, nofun, ?_⟩
    rintro ⟨r, hr, rfl, rfl⟩
    simpa using hno r (h1.committed _ trivial hr)

section
variable {β : Type} {Q : Except CallError β → Shared Call → Prop}

/-- A customer with a new id is inserted. -/
theorem wp_insertCustomer {row : Customer} {f : Bool → Program β}
    (hdb : ∀ s', Q (.error (.database .connection)) s') (hc : Fresh t s row.id)
    (hp : s.db.pending t = []) (h : ∀ s', HoldsLocks t s s' → s'.db.pending t = [.customer row] →
      Wp m settings t call Q (f true) s') :
    Wp m settings t call Q (insertCustomer row >>= f) s := by
  refine wp_insertTx hdb ?_ (fun s1 h1 hp1 => h s1 h1 (by rw [hp1, hp, nil_append]))
    (fun s1 row' k h1 hseen hk hkr _ => ?_)
    (fun _ row' k _ _ hno hk hkr => absurd hkr (hno k hk)) fun _ k _ hk => nomatch hk
  · intro id hid
    cases mem_singleton.1 hid
    exact hc.usable
  · cases mem_singleton.1 hk
    obtain ⟨r, rfl, hrid⟩ := customer_mem_keys.1 hkr
    refine absurd (hseen.resolve_right (by simp [hp])) ?_
    exact (hc.keeps h1.toKeeps).not_committed (by simp [Row.ids, hrid])

/-- So is the key of a new customer. -/
theorem wp_insertIfAbsentTx {wrapped : String} {createdAt : Time} {f : Bool → Program β}
    (hdb : ∀ s', Q (.error (.database .connection)) s') (hc : Fresh t s c)
    (hp : ∀ d, .customerDek d ∉ s.db.pending t) (h : ∀ s', HoldsLocks t s s' →
      s'.db.pending t = s.db.pending t ++ [.customerDek ⟨c, wrapped, createdAt⟩] →
      Wp m settings t call Q (f true) s') :
    Wp m settings t call Q (insertIfAbsentTx c wrapped createdAt >>= f) s := by
  refine wp_insertTx hdb ?_ h (fun s1 row' k h1 hseen hk hkr _ => ?_)
    (fun _ row' k _ _ hno hk hkr => absurd hkr (hno k hk)) fun _ k _ hk => nomatch hk
  · intro id hid
    cases mem_singleton.1 hid
    exact hc.usable
  · cases mem_singleton.1 hk
    obtain ⟨d, rfl, hd⟩ := customerDek_mem_keys.1 hkr
    refine absurd (hseen.resolve_right (hp d)) ?_
    exact (hc.keeps h1.toKeeps).not_committed (by simp [Row.ids, hd])

/-- An active address of the destination. -/
def CustomerAddress.Holds (kind : AddressKind) (valueHmac : Bytes) (a : CustomerAddress) : Prop :=
  a.kind = kind ∧ a.valueHmac = valueHmac ∧ a.activeTo = none

/-- The address of a destination that was looked up. -/
theorem wp_findActiveAddressByHmac {f : Option CustomerAddress → Program β}
    (hdb : ∀ s', Q (.error (.database .connection)) s')
    (hsome : ∀ s' a, Same t s s' → s'.db.Committed (.address a) → a.Holds kind valueHmac →
      Wp m settings t call Q (f (some a)) s')
    (hnone : ∀ s', Same t s s' → (∀ a, s'.db.Committed (.address a) → ¬ a.Holds kind valueHmac) →
      Wp m settings t call Q (f none) s') :
    Wp m settings t call Q (findActiveAddressByHmac kind valueHmac >>= f) s := by
  refine wp_fetchOptional address?_eq_some hdb (fun s1 a _ h1 ha hp => ?_) fun s1 _ h1 hno => ?_
  · simp only [Bool.and_eq_true, decide_eq_true_eq, isNone_iff_eq_none, and_assoc] at hp
    exact hsome s1 a h1 ha hp
  · refine hnone s1 h1 fun a ha hold => ?_
    have := hno a ha
    simp [hold.1, hold.2.1, hold.2.2] at this

/-- The winner of the race for a destination is found. -/
theorem wp_findWinner {f : CustomerAddress → Program β} {a : CustomerAddress}
    (hdb : ∀ s', Q (.error (.database .connection)) s') (ha : s.db.Committed (.address a))
    (hold : a.Holds kind valueHmac)
    (h : ∀ s' a, Same t s s' → s'.db.Committed (.address a) → a.Holds kind valueHmac →
      Wp m settings t call Q (f a) s') :
    Wp m settings t call Q (findActiveAddressByHmac kind valueHmac >>= fun o => expect o >>= f) s :=
  wp_findActiveAddressByHmac hdb h fun _ h1 hno => absurd hold (hno a (h1.committed _ trivial ha))

end

/-- A new customer, or the one that another call has given the external id to. -/
theorem mintProvisionalCustomerWithExternalId_spec {system : String} :
    Wp m settings t call (Ends Outage fun c s' => Grows s s' ∧ Published s' c)
      (mintProvisionalCustomerWithExternalId settings system externalId) s := by
  have hdb : ∀ s' : Shared Call, Outage (.database .connection) s' := fun _ => .inl rfl
  refine wp_newUuid fun c s1 h1 hc => wp_now fun now s2 h2 => wp_begin hdb fun s3 h3 hp3 => ?_
  have h := h1.toKeeps.trans (h2.toKeeps.trans h3)
  have hc3 := (hc nofun).keeps (h2.toKeeps.trans h3)
  refine wp_insertCustomer hdb hc3 hp3 fun s4 h4 hp4 => ?_
  refine wp_insertTx hdb ?_ (fun s5 h5 hp5 => ?_) (fun s5 row k h5 hseen hk hkr _ => ?_)
    (fun _ row k _ _ hno hk hkr => absurd hkr (hno k hk)) fun s5 k _ hk hno => ?_
  · intro id hid
    cases mem_singleton.1 hid
    exact (hc3.keeps h4.toKeeps).usable
  · rw [hp4] at hp5
    refine wp_commit hdb (fun s6 hinv h6 => .of_customers hinv fun row hr => ?_)
      fun s6 _ h6 => .ret fun s7 h7 => ?_
    · rw [h6.pending, hp5] at hr
      simp only [cons_append, nil_append, mem_cons, not_mem_nil, or_false] at hr
      rcases hr with rfl | rfl
      · exact .inl ⟨_, rfl⟩
      · exact .inr ⟨_, rfl⟩
    · have hpub : Published (s6.commit t call) (settings.provisional c now).id :=
        .of_pending (by rw [h6.pending, hp5]; exact .head _)
      exact ⟨h.toGrows.trans (h4.toGrows.trans (h5.toGrows.trans (h6.toGrows.trans
        (Grows.commit.trans h7.toGrows)))), hpub.grows h7.toGrows⟩
  · -- the external id is another customer's
    cases mem_singleton.1 hk
    obtain ⟨r, rfl, hr⟩ := externalId_mem_keys.1 hkr
    have hrow : s5.db.Committed (.externalId r) := hseen.resolve_right (by simp [hp4])
    refine wp_rollback hdb fun s6 h6 _ _ => ?_
    refine findCustomerByExternalId_spec.seq (fun o s7 ho => ?_) fun e _ he => he
    obtain ⟨hg7, hpub, hfound⟩ := ho
    obtain ⟨c', rfl⟩ := isSome_iff_exists.1 (hfound ⟨r, h6.committed _ trivial hrow, hr⟩)
    refine .ret fun s8 h8 => ⟨?_, (hpub c' rfl).grows h8.toGrows⟩
    exact h.toGrows.trans (h4.toGrows.trans (h5.toGrows.trans (h6.toGrows.trans
      (hg7.trans h8.toGrows))))
  · -- the customer is in the transaction
    cases mem_singleton.1 hk
    exact absurd (customer_mem_keys.2 ⟨_, rfl, rfl⟩) (hno _ (.inr (by rw [hp4]; exact .head _)))

/-- A new customer with the destination as address, or the one that has it by now. -/
theorem mintProvisionalCustomerAndAddress_spec (hdest : call.destination = some destination) :
    Wp m settings t call
      (Ends Unresolved fun r s' => Grows s s' ∧ ResolvedTo kind valueHmac s' ⟨r.1, r.2, none⟩)
      (mintProvisionalCustomerAndAddress settings process kind valueHmac destination) s := by
  have hdb : ∀ s' : Shared Call, Unresolved (.database .connection) s' := fun _ => .inl (.inl rfl)
  refine wp_newUuid fun c s1 h1 hc => wp_newUuid fun aid s2 h2 haid => wp_now fun now s3 h3 =>
    wp_createDek (fun _ => .inl (.inr rfl)) fun dek s4 h4 hdek => wp_nonce fun n s5 h5 => ?_
  refine wp_ofExcept (fun ciphertext henc => ?_) fun x _ _ _ => .inr (.inl ⟨x, rfl⟩)
  refine wp_begin hdb fun s6 h6 hp6 => ?_
  have h26 : Keeps t s2 s6 := (h3.trans (h4.trans h5)).toKeeps.trans h6
  have hc6 : Fresh t s6 c := (hc nofun).keeps (h2.toKeeps.trans h26)
  refine wp_insertCustomer hdb hc6 hp6 fun s7 h7 hp7 => ?_
  have hg : Grows s s7 := (h1.trans h2).toGrows.trans (h26.trans h7.toKeeps).toGrows
  have hc7 : Fresh t s7 c := hc6.keeps h7.toKeeps
  have haid7 : Fresh t s7 aid := (haid nofun).keeps (h26.trans h7.toKeeps)
  refine wp_insertTx hdb ?_ (fun s8 h8 hp8 => ?_) (fun s8 row k h8 hseen hk hkr _ => ?_)
    (fun s8 row k h8 hseen hno hk hkr => ?_) fun s8 k _ hk hno => ?_
  · intro id hid
    simp only [Row.ids, mem_cons, not_mem_nil, or_false] at hid
    rcases hid with rfl | rfl
    · exact haid7.usable
    · exact hc7.usable
  · -- the destination is free
    rw [hp7] at hp8
    have hc8 : Fresh t s8 c := hc7.keeps h8.toKeeps
    refine wp_insertIfAbsentTx hdb hc8 (by simp [hp8]) fun s9 h9 hp9 => ?_
    replace hp9 : s9.db.pending t = [.customer (settings.provisional c now),
        .address ⟨aid, c, kind, ciphertext, valueHmac, 1, now, none, now⟩,
        .customerDek ⟨c, dek.wrapped, now⟩] := by rw [hp9, hp8]; rfl
    refine wp_commit hdb (fun s' hinv h' => ?_) fun s' _ h' => ?_
    · exact .of_minted hinv (h'.pending.trans hp9) rfl rfl
        (hc8.keeps (h9.toKeeps.trans h'.toKeeps)) rfl rfl hdek hdest (decrypt_encrypt henc)
    · have hp' := h'.pending.trans hp9
      have hput : HasDek settings (s'.commit t call) c dek.plaintext :=
        HasDek.of_pending (d := ⟨c, dek.wrapped, now⟩) (by simp [hp']) hdek
      refine wp_cachePut hput fun s'' h'' => .ret fun s3 h3 => ?_
      have hend : Grows (s'.commit t call) s3 := (h''.trans h3.toSame).toGrows
      have hrow : Store.Committed (s'.commit t call).db
          (.address ⟨aid, c, kind, ciphertext, valueHmac, 1, now, none, now⟩) :=
        Store.committed_commit.2 (.inr (by simp [hp']))
      exact ⟨hg.trans (h8.toGrows.trans (h9.toGrows.trans (h'.toGrows.trans
        (Grows.commit.trans hend)))),
        ⟨_, hend.committed _ trivial hrow, rfl, rfl, rfl, rfl, rfl⟩, .none⟩
  · -- the destination is another customer's
    cases mem_singleton.1 hk
    obtain ⟨a, rfl, ha⟩ := activeHmac_mem_keys.1 hkr
    have hrow : s8.db.Committed (.address a) := hseen.resolve_right (by simp [hp7])
    refine wp_rollback hdb fun s9 h9 _ _ => ?_
    refine wp_findWinner hdb (h9.committed _ trivial hrow) ha fun s' a' h' ha' hold =>
      Rules.Wp.ret fun s'' h'' => ?_
    exact ⟨hg.trans (h8.toGrows.trans (h9.toGrows.trans (h'.trans h''.toSame).toGrows)),
      ⟨a', h''.committed _ trivial ha', rfl, rfl, hold⟩, .none⟩
  · -- neither the new address id nor an address of the new customer is in a row
    have hne : ∀ a, row = .address a → a.id ≠ aid ∧ a.customerId ≠ c := by
      rintro a rfl
      have hrow : s8.db.Committed (.address a) := hseen.resolve_right (by simp [hp7])
      refine ⟨fun h => ?_, fun h => ?_⟩
      · exact (haid7.keeps h8.toKeeps).not_committed (by simp [Row.ids, h]) hrow
      · exact (hc7.keeps h8.toKeeps).not_committed (by simp [Row.ids, h]) hrow
    simp only [mem_keys_address, true_and] at hk
    rcases hk with rfl | rfl | rfl
    · obtain ⟨a, hrow, h⟩ := address_mem_keys.1 hkr
      exact absurd h (hne a hrow).1
    · obtain ⟨a, hrow, h, -⟩ := activeRank_mem_keys.1 hkr
      exact absurd h (hne a hrow).2
    · exact absurd hkr (hno _ (.head _))
  · -- the customer is in the transaction
    cases mem_singleton.1 hk
    exact absurd (customer_mem_keys.2 ⟨_, rfl, rfl⟩) (hno _ (.inr (by rw [hp7]; exact .head _)))

/-- The customer that a request names is there. -/
theorem resolveCustomer_spec (hid : ∀ c, input = .explicit c → Usable s c) :
    Wp m settings t call
      (Ends Outage fun o s' => Grows s s' ∧ ∀ c locale, o = some (c, locale) →
        Published s' c ∧ LocaleOf s' c locale) (resolveCustomer settings input) s := by
  cases input with
  | explicit c =>
    refine (expandAlias_spec (hid c rfl)).seq (fun c' s1 h1 => ?_) fun e _ he => he
    refine findById_spec.seq (fun o s2 h2 => ?_) fun e _ he => he
    cases o with
    | some row =>
      refine .ret fun s3 h3 => ⟨h1.1.trans (h2.1.trans h3.toGrows), ?_⟩
      rintro _ _ ⟨⟩
      have hpub : Published s2 _ := ⟨row, h2.2.1 row rfl⟩
      exact ⟨hpub.grows h3.toGrows, (LocaleOf.of_row h2.2.1).grows h3.toGrows⟩
    | none =>
      refine (mintProvisionalCustomer_spec (h1.2.grows h2.1)).seq (fun _ s3 h3 => ?_)
        fun e _ he => he
      refine .ret fun s4 h4 => ⟨h1.1.trans (h2.1.trans (h3.1.trans h4.toGrows)), ?_⟩
      rintro _ _ ⟨⟩
      exact ⟨h3.2.grows h4.toGrows, .none⟩
  | external system externalId =>
    refine findCustomerByExternalId_spec.seq (fun o s1 h1 => ?_) fun e _ he => he
    cases o with
    | some c =>
      refine findById_spec.seq (fun o s2 h2 => ?_) fun e _ he => he
      -- an external id references its customer
      obtain ⟨row, rfl⟩ := isSome_iff_exists.1 (h2.2.2 (h1.2.1 c rfl))
      refine .ret fun s3 h3 => ⟨h1.1.trans (h2.1.trans h3.toGrows), ?_⟩
      rintro _ _ ⟨⟩
      have hpub : Published s2 _ := ⟨row, h2.2.1 row rfl⟩
      exact ⟨hpub.grows h3.toGrows, (LocaleOf.of_row h2.2.1).grows h3.toGrows⟩
    | none =>
      refine mintProvisionalCustomerWithExternalId_spec.seq (fun c s2 h2 => ?_) fun e _ he => he
      refine .ret fun s3 h3 => ⟨h1.1.trans (h2.1.trans h3.toGrows), ?_⟩
      rintro _ _ ⟨⟩
      exact ⟨h2.2.grows h3.toGrows, .none⟩
  | addressOnly => exact .ret fun s1 h1 => ⟨h1.toGrows, nofun⟩

/-- A request that names no customer resolves to whoever has the destination. -/
theorem resolveAddressOnly_spec (hdest : call.destination = some destination) :
    Wp m settings t call
      (Ends Unresolved fun r s' => Grows s s' ∧ ResolvedTo kind valueHmac s' r)
      (resolveAddressOnly settings process kind valueHmac destination) s := by
  refine wp_findActiveAddressByHmac (fun _ => .inl (.inl rfl)) (fun s1 a h1 ha hold => ?_)
    fun s1 h1 _ => ?_
  · refine findById_spec.seq (fun o s2 h2 => ?_) fun e _ he => .inl he
    refine .ret fun s3 h3 => ⟨h1.toGrows.trans (h2.1.trans h3.toGrows), ?_, ?_⟩
    · exact ⟨a, (h2.1.trans h3.toGrows).committed _ trivial ha, rfl, rfl, hold⟩
    · exact (LocaleOf.of_row h2.2.1).grows h3.toGrows
  · refine (mintProvisionalCustomerAndAddress_spec hdest).seq (fun r s2 h2 => ?_) fun e _ he => he
    exact .ret fun s3 h3 => ⟨h1.toGrows.trans (h2.1.trans h3.toGrows), h2.2.grows h3.toGrows⟩

/-- A lost race for a destination resolves to the winner. -/
theorem resolveToWinner_spec {a : CustomerAddress} (hl : LocaleOf s c locale)
    (ha : s.db.Committed (.address a)) (hold : a.Holds kind valueHmac) :
    Wp m settings t call
      (Ends Unresolved fun r s' => Grows s s' ∧ ResolvedTo kind valueHmac s' r)
      (resolveToWinner c locale kind valueHmac) s := by
  refine wp_findWinner (fun _ => .inl (.inl rfl)) ha hold fun s1 w h1 hw hold => ?_
  split
  · next hwc =>
    refine .ret fun s2 h2 => ?_
    have hg := (h1.trans h2.toSame).toGrows
    exact ⟨hg, ⟨w, h2.committed _ trivial hw, rfl, rfl, hold⟩, hwc ▸ hl.grows hg⟩
  · refine findById_spec.seq (fun o s2 h2 => ?_) fun e _ he => .inl he
    refine .ret fun s3 h3 => ⟨h1.toGrows.trans (h2.1.trans h3.toGrows), ?_, ?_⟩
    · exact ⟨w, (h2.1.trans h3.toGrows).committed _ trivial hw, rfl, rfl, hold⟩
    · exact (LocaleOf.of_row h2.2.1).grows h3.toGrows

/-- The next rank, which stays the next one while the customer's row is locked. -/
theorem nextRankForUpdate_spec (hc : Published s c) (hp : s.db.pending t = []) :
    Wp m settings t call
      (Ends Unresolved fun rank s' => Keeps t s s' ∧ s'.db.pending t = [] ∧
        (t, .customer c) ∈ s'.db.locks ∧ ∃ n, rank = n + 1 ∧ RankedTo s' c kind n)
      (nextRankForUpdate c kind) s := by
  refine wp_lock (fun _ => .inl (.inl rfl)) hc fun s1 h1 hp1 hl1 => ?_
  refine wp_selectTx (fun _ => .inl (.inl rfl)) fun s2 hinv h2 => ?_
  have hp2 : s2.db.pending t = [] := h2.pending.trans (hp1.trans hp)
  obtain ⟨n, hn⟩ := hinv.ranks c kind
  rw [hn.max?_activeRanks hp2]
  dsimp only
  split
  · refine .ret fun s3 h3 => ⟨h1.trans (h2.trans h3.toSame).toKeeps,
      h3.pending.trans hp2, ?_, n, rfl, ?_⟩
    · exact (h3.locks _).2 ((h2.locks _).2 hl1)
    · exact hn.locked ((h2.locks _).2 hl1) h3.toHoldsLocks
  · next hle =>
    -- there are as many addresses as ranks
    refine .fail fun s3 h3 => .inr (.inr ⟨rfl, ?_⟩)
    obtain ⟨a, ha, hfor, hrank⟩ := (hn smallintMax).2 ⟨by decide, by omega⟩
    exact ⟨a, h3.committed _ trivial ha, hfor.2.2, hrank⟩

/-- A customer gets the destination as address, unless another one has it. -/
theorem resolveAddress_spec (hdest : call.destination = some destination) (hc : Published s c)
    (hl : LocaleOf s c locale) :
    Wp m settings t call
      (Ends Unresolved fun r s' => Grows s s' ∧ ResolvedTo kind valueHmac s' r)
      (resolveAddress process c locale kind valueHmac destination) s := by
  have hdb : ∀ s' : Shared Call, Unresolved (.database .connection) s' := fun _ => .inl (.inl rfl)
  refine wp_fetchOptional address?_eq_some hdb (fun s1 a _ h1 ha hp => ?_) fun s1 hinv1 h1 _ => ?_
  · simp only [Bool.and_eq_true, decide_eq_true_eq, isNone_iff_eq_none, and_assoc] at hp
    refine .ret fun s2 h2 => ?_
    have hg := (h1.trans h2.toSame).toGrows
    exact ⟨hg, ⟨a, h2.committed _ trivial ha, rfl, hp⟩, hl.grows hg⟩
  · have hc1 := hc.grows h1.toGrows
    refine (getOrCreateDek_spec (hc1.usable hinv1) fun _ => hc1).seq (fun p s2 h2 => ?_)
      fun e _ he => .inl he
    refine wp_newUuid fun aid s3 h3 haid => wp_nonce fun n s4 h4 => ?_
    refine wp_ofExcept (fun ciphertext henc => ?_) fun x _ _ _ => .inr (.inl ⟨x, rfl⟩)
    refine wp_now fun now s5 h5 => wp_begin hdb fun s6 h6 hp6 => ?_
    have hg : Grows s1 s6 := (h2.1.trans (h3.trans (h4.trans h5))).toGrows.trans h6.toGrows
    have hc6 := hc1.grows hg
    refine (nextRankForUpdate_spec hc6 hp6).seq (fun rank s7 h7 => ?_) fun e _ he => he
    obtain ⟨h7, hp7, hl7, n, rfl, hn⟩ := h7
    have hc7 := hc6.grows h7.toGrows
    have haid7 : Fresh t s7 aid :=
      (haid nofun).keeps ((h4.trans h5).toKeeps.trans (h6.trans h7))
    have hg7 : Grows s s7 := h1.toGrows.trans (hg.trans h7.toGrows)
    refine wp_insertTx hdb ?_ (fun s8 h8 hp8 => ?_) (fun s8 row k h8 hseen hk hkr _ => ?_)
      (fun s8 row k h8 hseen hno hk hkr => ?_) fun s8 k h8 hk hno => ?_
    · intro id hid
      simp only [Row.ids, mem_cons, not_mem_nil, or_false] at hid
      rcases hid with rfl | rfl
      · exact haid7.usable
      · exact ((hc1.usable hinv1).grows (hg.trans h7.toGrows)).usableBy t
    · -- the destination is free, and the rank is still the next one
      rw [hp7, nil_append] at hp8
      have hdek8 := h2.2.grows ((h3.trans (h4.trans h5)).toGrows.trans
        (h6.toGrows.trans (h7.toGrows.trans h8.toGrows)))
      refine wp_commit hdb (fun s' hinv h' => ?_) fun s' _ h' => .ret fun s'' h'' => ?_
      · exact .of_ranked hinv (h'.pending.trans hp8) (hc7.grows (h8.toGrows.trans h'.toGrows)) rfl
          (hn.locked hl7 (h8.trans h'.toHoldsLocks)) rfl (hdek8.grows h'.toGrows) hdest
          (decrypt_encrypt henc)
      · have hall := hg7.trans (h8.toGrows.trans (h'.toGrows.trans
          (Grows.commit.trans h''.toGrows)))
        have hrow : Store.Committed (s'.commit t call).db
            (.address ⟨aid, c, kind, ciphertext, valueHmac, n + 1, now, none, now⟩) :=
          Store.committed_commit.2 (.inr (by rw [h'.pending, hp8]; exact .head _))
        exact ⟨hall, ⟨_, h''.committed _ trivial hrow, rfl, rfl, rfl, rfl, rfl⟩, hl.grows hall⟩
    · -- the destination is another customer's, or another call was first
      cases mem_singleton.1 hk
      obtain ⟨a, rfl, ha⟩ := activeHmac_mem_keys.1 hkr
      have hrow : s8.db.Committed (.address a) := hseen.resolve_right (by simp [hp7])
      refine wp_rollback hdb fun s9 h9 _ _ => ?_
      have hg9 := hg7.trans (h8.toGrows.trans h9.toGrows)
      exact wp_imp (resolveToWinner_spec (hl.grows hg9) (h9.committed _ trivial hrow) ha)
        (fun r s' hr => ⟨hg9.trans hr.1, hr.2⟩) fun e s' he => he
    · -- the id is new, and no address of the customer has the rank
      simp only [mem_keys_address, true_and] at hk
      rcases hk with rfl | rfl | rfl
      · obtain ⟨a, rfl, h⟩ := address_mem_keys.1 hkr
        exact absurd (hseen.resolve_right (by simp [hp7]))
          ((haid7.keeps h8.toKeeps).not_committed (by simp [Row.ids, h]))
      · obtain ⟨a, rfl, hac, hak, hact, hrank⟩ := activeRank_mem_keys.1 hkr
        have hrow : s8.db.Committed (.address a) := hseen.resolve_right (by simp [hp7])
        have := (hn.locked hl7 h8.toHoldsLocks (n + 1)).1 ⟨a, hrow, ⟨hac, hak, hact⟩, hrank⟩
        omega
      · exact absurd hkr (hno _ (.head _))
    · -- the customer is there
      cases mem_singleton.1 hk
      obtain ⟨r, hr, hrid⟩ := hc7.grows h8.toGrows
      exact absurd (customer_mem_keys.2 ⟨r, rfl, hrid⟩) (hno _ (.inl hr))

/-- A resolution returns the committed address of the destination; only a channel of no address kind
panics. -/
theorem resolve_spec {channel : String} (hdest : call.destination = some destination)
    (hid : ∀ c, input = .explicit c → Usable s c) :
    Wp m settings t call
      (Ends (fun e s' => Unresolved e s' ∨ e = .panicked ∧ kindForChannel channel = none)
        fun r s' => Grows s s' ∧ ∃ kind, kindForChannel channel = some kind ∧
          ResolvedTo kind (destinationHmac settings.pepper destination) s' r)
      (resolve settings process input destination channel) s := by
  unfold resolve
  cases kindForChannel channel with
  | none => exact .fail fun _ _ => .inr ⟨rfl, rfl⟩
  | some kind =>
    refine (resolveCustomer_spec hid).seq (fun o s1 h1 => ?_) fun e _ he => .inl (.inl he)
    cases o with
    | some o =>
      obtain ⟨c, locale⟩ := o
      obtain ⟨hc, hl⟩ := h1.2 c locale rfl
      exact wp_imp (resolveAddress_spec hdest hc hl)
        (fun r s' hr => ⟨h1.1.trans hr.1, kind, rfl, hr.2⟩) fun e s' he => .inl he
    | none =>
      exact wp_imp (resolveAddressOnly_spec hdest)
        (fun r s' hr => ⟨h1.1.trans hr.1, kind, rfl, hr.2⟩) fun e s' he => .inl he

end

end Messgr.Ingest
