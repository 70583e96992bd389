import Messgr.Ingest.Specs

/-!
# One key per customer

What the programs of `src/customer_dek` return: the plaintext that the persisted row unwraps to
(`getOrCreateDek_spec`), whoever persisted it. A call that creates a key and is too late to persist
it drops it and unwraps the row that it lost to.
-/

namespace Messgr.Ingest

open Tx (Store)

section
variable [KeyStore] [UuidCrate] [HmacSha256] [Aes256Gcm]
variable {m : Mode} {settings : Settings} {s : Shared Call} {t : Nat} {call : Call}

open Program Row

/-- A persisted key is unwrapped. -/
theorem unwrapDek_spec {d : CustomerDek} (hd : s.db.Committed (.customerDek d)) :
    Wp m settings t call
      (Ends Outage fun p s' => Same t s s' ∧ HasDek settings s' d.customerId p)
      (unwrapDek d.wrappedDek) s := by
  refine wp_unwrapDek (f := pure) (fun _ => .inr rfl) fun p s1 h1 hu => .ret fun s2 h2 => ?_
  have h := h1.trans h2.toSame
  exact ⟨h, d, h.committed _ trivial hd, rfl, hu⟩

/-- Behind the cache the customer's one key is returned. -/
theorem findOrCreateDek_spec {c : Uuid} (hc : Usable s c) (hm : m.customersOnly → Published s c) :
    Wp m settings t call
      (Ends Outage fun p s' => Same t s s' ∧ HasDek settings s' c p) (findOrCreateDek c) s := by
  have hdb : ∀ s' : Shared Call, Outage (.database .connection) s' := fun _ => .inl rfl
  refine wp_fetchOptional customerDek?_eq_some hdb (fun s1 d _ h1 hd hdc => ?_) fun s1 _ h1 _ => ?_
  · -- the key is there
    obtain rfl : d.customerId = c := of_decide_eq_true hdc
    exact wp_imp (unwrapDek_spec hd) (fun p s2 h2 => ⟨h1.trans h2.1, h2.2⟩) fun e s2 he => he
  · refine wp_createDek (fun _ => .inr rfl) fun dek s2 h2 hdek => wp_now fun now s3 h3 => ?_
    have h := h1.trans (h2.trans h3)
    refine wp_insertIfAbsent hdb (hc.grows h.toGrows) (fun hmode => (hm hmode).grows h.toGrows)
      (fun s4 h4 hins => ?_) fun s4 d h4 hd hdc => ?_
    · -- the key that was created is the one that is persisted
      refine .ret fun s5 h5 => ⟨h.trans (h4.trans h5.toSame), _,
        h5.committed _ trivial hins, rfl, hdek⟩
    · -- another call has persisted one, and nothing deletes it
      refine wp_fetchOptional customerDek?_eq_some hdb (fun s5 d' _ h5 hd' hdc' => ?_)
        fun s5 _ h5 hno => ?_
      · obtain rfl : d'.customerId = c := of_decide_eq_true hdc'
        exact wp_imp (unwrapDek_spec hd')
          (fun p s6 h6 => ⟨h.trans (h4.trans (h5.trans h6.1)), h6.2⟩) fun e s6 he => he
      · have := hno d (h5.committed _ trivial hd)
        simp [hdc] at this

/-- The key that a call gets is the persisted one. -/
theorem getOrCreateDek_spec {process : Nat} {c : Uuid} (hc : Usable s c)
    (hm : m.customersOnly → Published s c) :
    Wp m settings t call (Ends Outage fun p s' => Same t s s' ∧ HasDek settings s' c p)
      (getOrCreateDek process c) s := by
  refine wp_cacheGet fun hit s1 h1 hhit => ?_
  cases hit with
  | some p =>
    refine .ret fun s2 h2 => ⟨h1.trans h2.toSame, (hhit p rfl).grows h2.toGrows⟩
  | none =>
    refine (findOrCreateDek_spec (hc.grows h1.toGrows) fun hmode =>
      (hm hmode).grows h1.toGrows).seq (fun p s2 hp => ?_) fun e s2 he => he
    refine wp_cachePut hp.2 fun s3 h3 => .ret fun s4 h4 => ?_
    have h := h3.trans h4.toSame
    exact ⟨h1.trans (hp.1.trans h), hp.2.grows h.toGrows⟩

/-- Every id has a key afterwards, and the counts are theirs. -/
theorem preProvisionDeks_spec {ids : List Uuid} {outcome : PreProvisionOutcome}
    (hids : ∀ c ∈ ids, Usable s c) (hm : m.customersOnly → ∀ c ∈ ids, Published s c) :
    Wp m settings t call
      (Ends Outage fun o s' => Grows s s' ∧
        o.created + o.alreadyExisted = outcome.created + outcome.alreadyExisted + ids.length ∧
        ∀ c ∈ ids, ∃ d, s'.db.Committed (.customerDek d) ∧ d.customerId = c)
      (preProvisionDeks outcome ids) s := by
  have hdb : ∀ s' : Shared Call, Outage (.database .connection) s' := fun _ => .inl rfl
  induction ids generalizing s outcome with
  | nil =>
    refine .ret fun s1 h1 => ⟨h1.toGrows, rfl, fun c hc => ?_⟩
    cases hc
  | cons c ids ih =>
    -- with a key for `c` in place, the loop goes on
    have next : ∀ s1 o d, Grows s s1 → s1.db.Committed (.customerDek d) → d.customerId = c →
        o.created + o.alreadyExisted = outcome.created + outcome.alreadyExisted + 1 →
        Wp m settings t call
          (Ends Outage fun o' s' => Grows s s' ∧
            o'.created + o'.alreadyExisted =
              outcome.created + outcome.alreadyExisted + (c :: ids).length ∧
            ∀ c' ∈ c :: ids, ∃ d, s'.db.Committed (.customerDek d) ∧ d.customerId = c')
          (preProvisionDeks o ids) s1 := by
      intro s1 o d h1 hd hdc ho
      refine wp_imp (ih (fun c' hc' => (hids c' (.tail _ hc')).grows h1) fun hmode c' hc' =>
        (hm hmode c' (.tail _ hc')).grows h1) (fun o' s2 ho' => ?_) fun e s2 he => he
      obtain ⟨hg, hsum, hall⟩ := ho'
      refine ⟨h1.trans hg, by simp only [List.length_cons]; omega, fun c' hc' => ?_⟩
      rcases List.mem_cons.1 hc' with rfl | hc'
      · exact ⟨d, hg.committed _ trivial hd, hdc⟩
      · exact hall c' hc'
    refine wp_fetchOptional customerDek?_eq_some hdb (fun s1 d _ h1 hd hdc => ?_)
      fun s1 _ h1 _ => ?_
    · exact next s1 _ d h1.toGrows hd (of_decide_eq_true hdc) (by simp only; omega)
    · refine wp_createDek (fun _ => .inr rfl) fun dek s2 h2 hdek => wp_now fun now s3 h3 => ?_
      have h := h1.trans (h2.trans h3)
      refine wp_insertIfAbsent hdb ((hids c (.head _)).grows h.toGrows)
        (fun hmode => (hm hmode c (.head _)).grows h.toGrows) (fun s4 h4 hins => ?_)
        fun s4 d h4 hd hdc => ?_
      · exact next s4 _ _ (h.trans h4).toGrows hins rfl (by simp only; omega)
      · exact next s4 _ d (h.trans h4).toGrows hd hdc (by simp only; omega)

end

end Messgr.Ingest
