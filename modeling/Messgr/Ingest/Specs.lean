import Messgr.Ingest.Steps

/-!
# The statements as rules

One rule for each statement of a call: to show that a program that starts with it keeps the rules
from the state `s` on, show it for what follows, from every state `s'` that the statement may leave.
How `s'` comes from `s` is `Same` for a statement that is not one of the transaction; the other
rules say what became of the transaction's rows and locks.
-/

namespace Messgr.Ingest

open List Option
open Tx (Store)

/-- A postcondition: `P` of what is returned, `E` of an error. -/
def Ends {α : Type} (E : CallError → Shared Call → Prop) (P : α → Shared Call → Prop) :
    Except CallError α → Shared Call → Prop
  | .ok a, s => P a s
  | .error e, s => E e s

/-- The database or Vault did not answer. -/
def Outage (e : CallError) (_ : Shared Call) : Prop := e = .database .connection ∨ e = .vault

section
variable {m : Mode} {s s' : Shared Call} {t : Nat} {call : Call}

/-- A step of the call that leaves the database alone. -/
theorem Same.of_db (hdb : s'.db = s.db) (hk : s'.known = s.known) (hm : s'.minted = s.minted)
    (hh : s'.history = s.history) : Same t s s' := by
  obtain ⟨db, processes, known, minted, lost, history⟩ := s
  obtain ⟨db', processes', known', minted', lost', history'⟩ := s'
  cases hdb
  cases hk
  cases hm
  cases hh
  exact ⟨⟨⟨⟨fun _ _ h => h, fun _ h => h, fun _ _ h => h, fun _ _ h => .inl h, fun _ h => h⟩,
    fun _ h => h, fun _ _ h => h⟩, fun _ => .rfl, fun _ _ _ _ h => h⟩, rfl⟩

theorem Same.looked : Same t s (s.looked t) := .of_db rfl rfl rfl rfl

theorem Same.newUuid {id : Uuid} {minted : List (Nat × Uuid)} (hid : id ∉ s.known)
    (hminted : minted = s.minted ∨ minted = (t, id) :: s.minted) :
    Same t s { s with known := id :: s.known, minted := minted } :=
  (Others.newUuid (m := .any) hid hminted).toSame

/-- The end of the transaction. -/
theorem Keeps.rollback : Keeps t s { s with db := s.db.rollback t } where
  committed _ _ h := Store.mem_rollback.2 ⟨h, nofun⟩
  known _ h := h
  minted _ _ h := h
  drawn _ _ h := .inl h
  history _ h := h
  own _ h := h
  unmentioned c _ h := by
    obtain ⟨row, hr, hid⟩ := h
    exact ⟨row, (Store.mem_rollback.1 hr).1, hid⟩

theorem pending_rollback : (s.db.rollback t).pending t = [] := by
  simp [Store.pending, Store.rollback, List.filter_filter]

/-- A row more in the transaction. -/
theorem HoldsLocks.insertTx {onConflict : List Key} {db : Db} {row : Row}
    (h : s.db.insert (some t) onConflict row = some (.inserted, db)) :
    HoldsLocks t s { s with db := db } ∧ db.pending t = s.db.pending t ++ [row] := by
  obtain ⟨he, hl, -⟩ := Store.insert_outcome h
  have hcom : ∀ row', Store.Committed db row' ↔ s.db.Committed row' := fun row' =>
    (Store.committed_append he).trans ⟨fun h => h.resolve_right nofun, .inl⟩
  refine ⟨⟨⟨⟨fun row' _ hr => (hcom row').2 hr, fun _ h => h, fun _ _ h => h,
    fun _ _ h => .inl h, fun _ h => h⟩, fun _ h => h, ?_⟩, fun k => by rw [hl],
    fun _ _ row' _ hr => (hcom row').1 hr⟩, ?_⟩
  · rintro c - ⟨row', hr, hid⟩
    exact ⟨row', (hcom row').1 hr, hid⟩
  · simp [Store.pending, he, filter_append]

/-- A lock more. -/
theorem Keeps.lock {key : Key} {db : Db} (h : s.db.lock t key = some (true, db)) :
    Keeps t s { s with db := db } ∧ db.pending t = s.db.pending t ∧ (t, key) ∈ db.locks := by
  rcases Store.lock_cases h with ⟨-, he, hl⟩ | ⟨h, -⟩
  · refine ⟨⟨⟨fun row _ hr => ?_, fun _ h => h, fun _ _ h => h, fun _ _ h => .inl h,
      fun _ h => h⟩, fun _ h => h, ?_⟩, by simp only [Store.pending, he], ?_⟩
    · rwa [Store.Committed, he]
    · rintro c - ⟨row, hr, hid⟩
      exact ⟨row, by rwa [Store.Committed, he] at hr, hid⟩
    · rw [hl]; exact .head _
  · cases h

/-- An id that the call has drawn and not committed. -/
structure Fresh (t : Nat) (s : Shared Call) (id : Uuid) : Prop where
  minted : (t, id) ∈ s.minted
  unmentioned : ¬ Mentioned s id
  usable : UsableBy t s id

theorem Fresh.keeps {id : Uuid} (h : Fresh t s id) (hk : Keeps t s s') : Fresh t s' id :=
  ⟨hk.own id h.minted, fun hm => h.unmentioned (hk.unmentioned id h.minted hm),
    h.usable.grows hk.toGrows⟩

end

section
variable [KeyStore] [Aes256Gcm]
variable {m : Mode} {settings : Settings} {s : Shared Call} {t : Nat}
variable {β : Type} {Q : Except CallError β → Shared Call → Prop}

/-- A statement that fails ends the call, and with it the call's transaction. -/
theorem fails {e : CallError} (hinv : Inv m settings s) (hQ : ∀ s', Q (.error e) s') :
    Inv m settings (s.drop t) ∧ (∀ u, u ≠ t → Others m u s (s.drop t)) ∧
      ∀ s', Others m t (s.drop t) s' → Q (.error e) s' :=
  ⟨hinv.drop, fun _ hu => .drop hu.symm, fun s' _ => hQ s'⟩

end

section
variable [KeyStore] [UuidCrate] [HmacSha256] [Aes256Gcm]
variable {m : Mode} {settings : Settings} {s : Shared Call} {t : Nat} {call : Call}
variable {β : Type} {Q : Except CallError β → Shared Call → Prop} {process : Nat}

/-- A look at the clock, after whatever the others have done. -/
theorem wp_clock {f : Time → Program β}
    (h : ∀ now s', Others m t s s' → Wp m settings t call Q (f now) s') :
    Wp m settings t call Q (Program.now >>= f) s := by
  refine .stmt fun s1 e s2 a h1 hinv _ hx => ?_
  cases e with
  | time now =>
    cases hx
    exact ⟨hinv, fun u _ => .refl m u s1, h now s1 h1⟩
  | _ => cases hx

theorem wp_now {f : Time → Program β}
    (h : ∀ now s', Same t s s' → Wp m settings t call Q (f now) s') :
    Wp m settings t call Q (Program.now >>= f) s :=
  wp_clock fun now s' hs => h now s' hs.toSame

theorem wp_nonce {f : Nonce → Program β}
    (h : ∀ n s', Same t s s' → Wp m settings t call Q (f n) s') :
    Wp m settings t call Q (Program.nonce >>= f) s := by
  refine .stmt fun s1 e s2 a h1 hinv _ hx => ?_
  cases e with
  | nonce n =>
    cases hx
    exact ⟨hinv, fun u _ => .refl m u s1, h n s1 h1.toSame⟩
  | _ => cases hx

/-- A new id; one for a customer or an address is for this call only. -/
theorem wp_newUuid {purpose : Purpose} {f : Uuid → Program β}
    (h : ∀ id s', Same t s s' → (purpose ≠ .commsRequest → Fresh t s' id) →
      Wp m settings t call Q (f id) s') :
    Wp m settings t call Q (Program.newUuid purpose >>= f) s := by
  refine .stmt fun s1 e s2 a h1 hinv _ hx => ?_
  cases e with
  | uuid id =>
    simp only [system, exec] at hx
    split at hx
    · cases hx
    · next hid =>
      cases hx
      have hm : (if purpose = .commsRequest then s1.minted else (t, id) :: s1.minted) = s1.minted ∨
          (if purpose = .commsRequest then s1.minted else (t, id) :: s1.minted) =
            (t, id) :: s1.minted := by
        split
        · exact .inl rfl
        · exact .inr rfl
      refine ⟨hinv.newUuid hid hm, fun u _ => .newUuid hid hm,
        h id _ (h1.toSame.trans (.newUuid hid hm)) fun hp => ?_⟩
      rw [if_neg hp]
      refine ⟨.head _, ?_, .head _, fun u hu => ?_⟩
      · rintro ⟨row, hr, hmem⟩
        exact hid (hinv.ids.known _ hr id hmem)
      · rcases mem_cons.1 hu with hu | hu
        · cases hu
          exact .inr rfl
        · exact absurd (hinv.ids.minted u id hu) hid
  | _ => cases hx

section
variable (hdb : ∀ s', Q (.error (.database .connection)) s')
include hdb

/-- A query sees the committed rows, and in a transaction the pending ones. -/
theorem wp_query {inTx : Bool} {γ : Type} {query : List Row → γ} {f : γ → Program β}
    (h : ∀ s', Inv m settings s' → Others m t s s' →
      Wp m settings t call Q (f (query (s'.db.visible (if inTx then some t else none))))
        (s'.looked t)) : Wp m settings t call Q (.call (.select inTx query) f) s := by
  refine .stmt fun s1 e s2 a h1 hinv _ hx => ?_
  cases e with
  | done =>
    cases hx
    exact ⟨.looked hinv, fun u hu => .looked hu.symm, h s1 hinv h1⟩
  | fails => cases hx; exact fails hinv hdb
  | _ => cases hx

theorem wp_select {γ : Type} {query : List Row → γ} {f : γ → Program β}
    (h : ∀ s', Inv m settings s' → Same t s s' →
      Wp m settings t call Q (f (query (s'.db.visible none))) s') :
    Wp m settings t call Q (Program.select query >>= f) s :=
  wp_query hdb fun s1 hinv h1 =>
    h (s1.looked t) (.looked hinv) (h1.toSame.trans .looked)

theorem wp_selectTx {γ : Type} {query : List Row → γ} {f : γ → Program β}
    (h : ∀ s', Inv m settings s' → Same t s s' →
      Wp m settings t call Q (f (query (s'.db.visible (some t)))) s') :
    Wp m settings t call Q (Program.selectTx query >>= f) s :=
  wp_query hdb fun s1 hinv h1 =>
    h (s1.looked t) (.looked hinv) (h1.toSame.trans .looked)

end

/-- The row that a query of at most one row finds is committed; what it misses is not. -/
theorem wp_fetchOptional {γ : Type} {table : Row → Option γ} {mk : γ → Row} {p : γ → Bool}
    {f : Option γ → Program β} (hmk : ∀ row r, table row = some r ↔ row = mk r)
    (hdb : ∀ s', Q (.error (.database .connection)) s')
    (hsome : ∀ s' r, Inv m settings s' → Same t s s' → s'.db.Committed (mk r) → p r = true →
      Wp m settings t call Q (f (some r)) s')
    (hnone : ∀ s', Inv m settings s' → Same t s s' →
      (∀ r, s'.db.Committed (mk r) → p r = false) → Wp m settings t call Q (f none) s') :
    Wp m settings t call Q (Program.fetchOptional table p >>= f) s := by
  refine wp_select hdb fun s' hinv hs => ?_
  cases hf : ((s'.db.visible none).filterMap table).find? p with
  | none =>
    refine hnone s' hinv hs fun r hr => ?_
    have := find?_eq_none.1 hf r
      (mem_filterMap.2 ⟨mk r, Store.mem_visible_none.2 hr, (hmk _ _).2 rfl⟩)
    simpa using this
  | some r =>
    obtain ⟨row, hr, ht⟩ := mem_filterMap.1 (mem_of_find?_eq_some hf)
    cases (hmk row r).1 ht
    exact hsome s' r hinv hs (Store.mem_visible_none.1 hr) (find?_some hf)

/-- A new key is one that Vault unwraps again. -/
theorem wp_createDek {f : Dek → Program β} (hv : ∀ s', Q (.error .vault) s')
    (h : ∀ dek s', Same t s s' →
      KeyStore.unwrapDek settings.vaultMount dek.wrapped = some dek.plaintext →
      Wp m settings t call Q (f dek) s') : Wp m settings t call Q (Program.createDek >>= f) s := by
  refine .stmt fun s1 e s2 a h1 hinv _ hx => ?_
  cases e with
  | created dek =>
    simp only [system, exec] at hx
    split at hx
    · next hc =>
      cases hx
      exact ⟨hinv, fun u _ => .refl m u s1, h dek s1 h1.toSame (of_decide_eq_true hc)⟩
    · cases hx
  | fails => cases hx; exact fails hinv hv
  | _ => cases hx

/-- Vault unwraps a key, or fails. -/
theorem wp_unwrapDek {wrapped : String} {f : Bytes → Program β} (hv : ∀ s', Q (.error .vault) s')
    (h : ∀ p s', Same t s s' → KeyStore.unwrapDek settings.vaultMount wrapped = some p →
      Wp m settings t call Q (f p) s') :
    Wp m settings t call Q (Program.unwrapDek wrapped >>= f) s := by
  refine .stmt fun s1 e s2 a h1 hinv _ hx => ?_
  cases e with
  | done =>
    simp only [system, exec] at hx
    split at hx
    · next p hu =>
      cases hx
      exact ⟨hinv, fun u _ => .refl m u s1, h p s1 h1.toSame hu⟩
    · cases hx; exact fails hinv hv
  | fails => cases hx; exact fails hinv hv
  | _ => cases hx

/-- A key that the cache has is the persisted one. -/
theorem wp_cacheGet {key : Uuid} {f : Option Bytes → Program β}
    (h : ∀ hit s', Same t s s' → (∀ p, hit = some p → HasDek settings s' key p) →
      Wp m settings t call Q (f hit) s') :
    Wp m settings t call Q (Program.cacheGet process key >>= f) s := by
  refine .stmt fun s1 e s2 a h1 hinv _ hx => ?_
  cases e with
  | time now =>
    obtain ⟨p, hp, hx⟩ := bind_eq_some_iff.1 hx
    cases hx
    obtain ⟨hhit, hsub, -⟩ := KeyCache.get_eq (rfl : p.dekCache.get now key = (_, _))
    refine ⟨hinv.quiet (.setProcess hp fun e he => .inl (hsub e he)), fun u _ => .setProcess,
      h _ _ (h1.toSame.trans (.of_db rfl rfl rfl rfl)) fun q hq => ?_⟩
    obtain ⟨_, he, -⟩ := hhit q hq
    exact hinv.caches p (mem_of_getElem? hp) _ he
  | _ => cases hx

/-- Only a persisted key is cached. -/
theorem wp_cachePut {key : Uuid} {p : Bytes} {f : Unit → Program β} (hp : HasDek settings s key p)
    (h : ∀ s', Same t s s' → Wp m settings t call Q (f ()) s') :
    Wp m settings t call Q (Program.cachePut process key p >>= f) s := by
  refine .stmt fun s1 e s2 a h1 hinv _ hx => ?_
  cases e with
  | time now =>
    obtain ⟨q, hq, hx⟩ := bind_eq_some_iff.1 hx
    cases hx
    refine ⟨hinv.quiet (.setProcess hq fun e he => ?_), fun u _ => .setProcess,
      h _ (h1.toSame.trans (.of_db rfl rfl rfl rfl))⟩
    rcases LruCache.mem_put _ he with rfl | ⟨he, -⟩
    · exact .inr (hp.grows h1.toGrows)
    · exact .inl he
  | _ => cases hx

theorem wp_blockingScope {channel : String} {producerId : Uuid} {campaignId : Option String}
    {f : Option String → Program β}
    (h : ∀ scope s', Same t s s' → Wp m settings t call Q (f scope) s') :
    Wp m settings t call Q
      (Program.blockingScope process channel producerId campaignId >>= f) s := by
  refine .stmt fun s1 e s2 a h1 hinv _ hx => ?_
  cases e with
  | done =>
    obtain ⟨p, hp, hx⟩ := bind_eq_some_iff.1 hx
    cases hx
    exact ⟨hinv, fun u _ => .refl m u s1, h _ s1 h1.toSame⟩
  | _ => cases hx

section
variable (hdb : ∀ s', Q (.error (.database .connection)) s')
include hdb

/-- A key is persisted on its own, unless one is there. -/
theorem wp_insertIfAbsent {c : Uuid} {wrapped : String} {createdAt : Time}
    {f : Bool → Program β} (hc : Usable s c) (hm : m.customersOnly → Published s c)
    (hins : ∀ s', Same t s s' → s'.db.Committed (.customerDek ⟨c, wrapped, createdAt⟩) →
      Wp m settings t call Q (f true) s')
    (hconf : ∀ s' d, Same t s s' → s'.db.Committed (.customerDek d) → d.customerId = c →
      Wp m settings t call Q (f false) s') :
    Wp m settings t call Q (Program.insertIfAbsent c wrapped createdAt >>= f) s := by
  refine .stmt fun s1 e s2 a h1 hinv _ hx => ?_
  have hc1 := hc.grows h1.toGrows
  have hm1 := fun h => (hm h).grows h1.toGrows
  have hids : ∀ id ∈ (Row.customerDek ⟨c, wrapped, createdAt⟩).ids, Usable s1 id := fun id hid =>
    mem_singleton.1 hid ▸ hc1
  cases e with
  | done =>
    simp only [system, exec] at hx
    split at hx
    · cases hx
    · next db hi =>
      cases hx
      refine ⟨hinv.insertDek hc1 hm1 hi, fun u hu => .insert (o := none) nofun (fun _ => hids) hi,
        hins _ (h1.toSame.trans
          (Others.insert (m := m) (o := none) nofun (fun _ => hids) hi).toSame)
          ((Store.committed_append (Store.insert_outcome hi).1).2 (.inr ⟨rfl, rfl⟩))⟩
    · next hi =>
      cases hx
      refine ⟨hinv.quiet (.of_eq rfl rfl rfl rfl rfl), fun u hu => .of_db (.refl _ _ _)
        (fun _ h => h) rfl (fun k => ?_) (fun _ h => h) fun _ _ h => h, ?_⟩
      · simp [hu]
      · obtain ⟨-, ⟨o, row⟩, he, ho, k, hk, hkr⟩ := Store.insert_outcome hi
        obtain rfl : o = none := by rcases ho with h | h <;> exact h
        cases mem_singleton.1 hk
        obtain ⟨d, rfl, hd⟩ : ∃ d, row = .customerDek d ∧ d.customerId = c := by
          cases row <;> simp_all [Tx.Schema.keys, Row.keys]
        exact hconf _ d (h1.toSame.trans (.of_db rfl rfl rfl rfl)) he hd
    · next hi =>
      -- the primary key is the one index of the table, and it is the arbiter
      obtain ⟨-, e, -, -, hno, k, hk, hke⟩ := Store.insert_outcome hi
      exact absurd hke (hno k hk)
    · next hi =>
      obtain ⟨-, k, hk, -⟩ := Store.insert_outcome hi
      cases hk
  | lost =>
    simp only [system, exec] at hx
    split at hx
    · next db hi =>
      cases hx
      refine ⟨(hinv.insertDek hc1 hm1 hi).drop, fun u hu => ?_, fun s3 _ => hdb s3⟩
      exact (Others.insert (o := none) nofun (fun _ => hids) hi).trans (.drop hu.symm)
    · cases hx
  | fails => cases hx; exact fails hinv hdb
  | _ => cases hx

/-! ## Transactions -/

theorem wp_begin {f : Unit → Program β} (h : ∀ s', Keeps t s s' → s'.db.pending t = [] →
      Wp m settings t call Q (f ()) s') : Wp m settings t call Q (Program.begin >>= f) s := by
  refine .stmt fun s1 e s2 a h1 hinv _ hx => ?_
  cases e with
  | done =>
    cases hx
    exact ⟨hinv.rollback, fun u hu => .rollback hu.symm,
      h _ (h1.toKeeps.trans .rollback) pending_rollback⟩
  | fails => cases hx; exact fails hinv hdb
  | _ => cases hx

/-- A rollback forgets the rows, not the key that was found taken. -/
theorem wp_rollback {f : Unit → Program β}
    (h : ∀ s', Keeps t s s' → (∀ k, (t, k) ∈ s'.lost ↔ (t, k) ∈ s.lost) →
      (∀ r, m.Keeps t s (.idempotency r.producerId r.key) → s.db.Committed (.idempotency r) →
        s'.db.Committed (.idempotency r)) →
      Wp m settings t call Q (f ()) s') : Wp m settings t call Q (Program.rollback >>= f) s := by
  refine .stmt fun s1 e s2 a h1 hinv _ hx => ?_
  cases e with
  | done =>
    cases hx
    exact ⟨hinv.rollback, fun u hu => .rollback hu.symm, h _ (h1.toKeeps.trans .rollback) h1.lost
      fun r hk hr => Store.mem_rollback.2 ⟨h1.kept r hk hr, nofun⟩⟩
  | fails => cases hx; exact fails hinv hdb
  | _ => cases hx

/-- The lock of a customer's row that is there. -/
theorem wp_lock {c : Uuid} {f : Unit → Program β} (hc : Published s c)
    (h : ∀ s', Keeps t s s' → s'.db.pending t = s.db.pending t →
      (t, .customer c) ∈ s'.db.locks → Wp m settings t call Q (f ()) s') :
    Wp m settings t call Q (Program.lock (.customer c) >>= f) s := by
  refine .stmt fun s1 e s2 a h1 hinv _ hx => ?_
  cases e with
  | done =>
    simp only [system, exec] at hx
    split at hx
    · cases hx
    · next db hl =>
      cases hx
      obtain ⟨hk, hp, hmem⟩ := Keeps.lock hl
      exact ⟨hinv.quiet (.lock hl), fun u hu => .lock hu.symm hl,
        h _ (h1.toKeeps.trans hk) (hp.trans h1.pending) hmem⟩
    · next hl =>
      rcases Store.lock_cases hl with ⟨h, -⟩ | ⟨-, -, hno⟩
      · cases h
      · obtain ⟨r, hr, rfl⟩ := hc.grows h1.toGrows
        exact absurd (by simp [Tx.Schema.keys, Row.keys]) (hno _ hr (.inl rfl))
  | fails => cases hx; exact fails hinv hdb
  | _ => cases hx

/-- A row inserted into the transaction, or found taken, or in conflict with another index or a
foreign key, of the committed rows and its own. -/
theorem wp_insertTx {onConflict : List Key} {row : Row} {f : Bool → Program β}
    (hids : ∀ id ∈ row.ids, UsableBy t s id)
    (hins : ∀ s', HoldsLocks t s s' → s'.db.pending t = s.db.pending t ++ [row] →
      Wp m settings t call Q (f true) s')
    (hconf : ∀ s' row' k, Same t s s' → s'.db.Committed row' ∨ row' ∈ s.db.pending t →
      k ∈ onConflict → k ∈ row'.keys → (t, k) ∈ s'.lost →
      Wp m settings t call Q (f false) s')
    (huniq : ∀ s1 row' k, Same t s s1 → s1.db.Committed row' ∨ row' ∈ s.db.pending t →
      (∀ k' ∈ onConflict, k' ∉ row'.keys) → k ∈ row.keys → k ∈ row'.keys →
      ∀ s', Q (.error (.database .uniqueViolation)) s')
    (hfk : ∀ s1 k, Same t s s1 → k ∈ row.refs →
      (∀ row', s1.db.Committed row' ∨ row' ∈ s.db.pending t → k ∉ row'.keys) →
      ∀ s', Q (.error (.database .foreignKeyViolation)) s') :
    Wp m settings t call Q (Program.insertTx onConflict row >>= f) s := by
  refine .stmt fun s1 e s2 a h1 hinv _ hx => ?_
  have hids1 : ∀ id ∈ row.ids, UsableBy t s1 id := fun id hid => (hids id hid).grows h1.toGrows
  have hseen : ∀ row', row' ∈ s1.db.visible (some t) ↔
      s1.db.Committed row' ∨ row' ∈ s.db.pending t := fun row' => by
    rw [Store.mem_visible_some, h1.pending]
  cases e with
  | done =>
    simp only [system, exec, if_true] at hx
    split at hx
    · cases hx
    · next db hi =>
      cases hx
      obtain ⟨hh, hp⟩ := HoldsLocks.insertTx hi
      refine ⟨hinv.quiet (.insertTx hids1 hi), fun u hu =>
        .insert (fun h => hu (Option.some.inj h).symm) (fun h => nomatch h) hi,
        hins _ (h1.toHoldsLocks.trans hh) ?_⟩
      rw [hp, h1.pending]
    · next hi =>
      cases hx
      obtain ⟨-, e, he, hs, k, hk, hke⟩ := Store.insert_outcome hi
      refine ⟨hinv.quiet (.of_eq rfl rfl rfl rfl rfl), fun u hu => .of_db (.refl _ _ _)
        (fun _ h => h) rfl (fun k => ?_) (fun _ h => h) fun _ _ h => h,
        hconf _ e.row k (h1.toSame.trans (.of_db rfl rfl rfl rfl))
          ((hseen _).1 (Store.mem_visible.2 ⟨e, he, hs, rfl⟩)) hk hke
          (mem_append_left _ (mem_map_of_mem hk))⟩
      simp [hu.symm]
    · next hi =>
      cases hx
      obtain ⟨-, e, he, hs, hno, k, hk, hke⟩ := Store.insert_outcome hi
      exact fails hinv (huniq s1 e.row k h1.toSame
        ((hseen _).1 (Store.mem_visible.2 ⟨e, he, hs, rfl⟩)) hno hk hke)
    · next hi =>
      cases hx
      obtain ⟨-, k, hk, hno⟩ := Store.insert_outcome hi
      refine fails hinv (hfk s1 k h1.toSame hk fun row' hr hkr => ?_)
      obtain ⟨e, he, hs, rfl⟩ := Store.mem_visible.1 ((hseen row').2 hr)
      exact hno e he hs hkr
  | fails => cases hx; exact fails hinv hdb
  | lost => cases hx
  | _ => cases hx

/-- A commit of rows that the invariant allows. -/
theorem wp_commit {f : Unit → Program β}
    (hok : ∀ s1, Inv m settings s1 → Same t s s1 → CommitOk m settings t call s1)
    (h : ∀ s1, Inv m settings s1 → Others m t s s1 →
      Wp m settings t call Q (f ()) (s1.commit t call)) :
    Wp m settings t call Q (Program.commit >>= f) s := by
  refine .stmt fun s1 e s2 a h1 hinv _ hx => ?_
  cases e with
  | done =>
    cases hx
    exact ⟨hinv.commit (hok s1 hinv h1.toSame), fun u hu => .commit hinv.ids hu.symm, h s1 hinv h1⟩
  | lost =>
    cases hx
    refine ⟨(hinv.commit (hok s1 hinv h1.toSame)).drop, fun u hu => ?_, fun s3 _ => hdb s3⟩
    exact (Others.commit hinv.ids hu.symm).trans (.drop hu.symm)
  | fails => cases hx; exact fails hinv hdb
  | _ => cases hx

end

/-- A weaker postcondition. -/
theorem wp_imp {E E' : CallError → Shared Call → Prop} {P P' : β → Shared Call → Prop}
    {p : Program β} (h : Wp m settings t call (Ends E P) p s)
    (hP : ∀ b s', P b s' → P' b s') (hE : ∀ e s', E e s' → E' e s') :
    Wp m settings t call (Ends E' P') p s := by
  refine h.mono fun a s' ha => ?_
  cases a with
  | ok b => exact hP b s' ha
  | error e => exact hE e s' ha

/-- A result that no statement gave. -/
theorem wp_ofExcept {ε γ : Type} {g : ε → CallError} {x : Except ε γ} {f : γ → Program β}
    (hok : ∀ a, x = .ok a → Wp m settings t call Q (f a) s)
    (herr : ∀ e, x = .error e → ∀ s', Others m t s s' → Q (.error (g e)) s') :
    Wp m settings t call Q (Program.ofExcept g x >>= f) s := by
  cases x with
  | ok a => exact hok a rfl
  | error e => exact herr e rfl

end

end Messgr.Ingest
