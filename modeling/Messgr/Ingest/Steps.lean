import Messgr.Ingest.Rules

/-!
# The steps of a call

What each statement does to the invariant and to the other calls. Most statements are `Quiet`: they
change neither what is committed nor the records. Those that are not are a new id
(`Inv.newUuid`), a key that is persisted on its own (`Inv.insertDek`) and the commit of a
transaction (`Inv.commit`), which asks of the transaction's rows what the invariant says of
committed ones (`CommitOk`).
-/

namespace Messgr.Ingest

open List
open Tx (Store)

section
variable {m : Mode} {s s' : Shared Call} {t u : Nat} {call : Call} {row : Row}

/-! ## Others -/

theorem Others.looked (hu : u ≠ t) : Others m t s (s.looked u) :=
  .of_db (.refl _ _ _) (fun _ h => h) rfl
    (fun k => by simp [Shared.looked, hu.symm]) (fun _ h => h) fun _ _ h => h

theorem Others.setProcess {process : Nat} {p : Process} : Others m t s (s.setProcess process p) :=
  .of_db (.refl _ _ _) (fun _ h => h) rfl (fun _ => .rfl) (fun _ h => h) fun _ _ h => h

theorem Others.rollback (hu : u ≠ t) : Others m t s { s with db := s.db.rollback u } :=
  .of_db (.rollback hu) (fun _ h => h) rfl (fun _ => .rfl) (fun _ h => h) fun _ _ h => by
    obtain ⟨row, hr, hid⟩ := h
    exact ⟨row, (Store.mem_rollback.1 hr).1, hid⟩

theorem Others.drop (hu : u ≠ t) : Others m t s (s.drop u) :=
  (Others.rollback hu).trans (Others.looked hu)

/-- A row inserted in another call's transaction, or alone with ids that all may use. -/
theorem Others.insert {o : Option Nat} {onConflict : List Key} {a : Store.Inserted} {db : Db}
    (ho : o ≠ some t) (hrow : o = none → ∀ id ∈ row.ids, Usable s id)
    (h : s.db.insert o onConflict row = some (a, db)) : Others m t s { s with db := db } := by
  refine .of_db (.insert ho h) (fun _ h => h) rfl (fun _ => .rfl) (fun _ h => h) ?_
  rintro c hc ⟨row', hr, hid⟩
  rcases Store.insert_cases h with ⟨he, -⟩ | rfl
  · rcases (Store.committed_append he).1 hr with hr | ⟨rfl, rfl⟩
    · exact ⟨row', hr, hid⟩
    · exact (hrow rfl c hid).2 t hc
  · exact ⟨row', hr, hid⟩

theorem Others.lock {key : Key} {b : Bool} {db : Db} (hu : u ≠ t)
    (h : s.db.lock u key = some (b, db)) : Others m t s { s with db := db } := by
  refine .of_db (.lock hu h) (fun _ h => h) rfl (fun _ => .rfl) (fun _ h => h) ?_
  rintro c - ⟨row, hr, hid⟩
  exact ⟨row, by rwa [Store.Committed, Store.lock_entries h] at hr, hid⟩

/-- What a call commits has no id that another one has drawn and not committed. -/
theorem Others.commit (hids : Ids s) (hu : u ≠ t) : Others m t s (s.commit u call) := by
  refine .of_db (.commit hu) (fun _ h => h) rfl (fun _ => .rfl) (fun _ h => mem_append_left _ h) ?_
  rintro c hc ⟨row, hr, hid⟩
  rcases Store.committed_commit.1 hr with hr | hr
  · exact ⟨row, hr, hid⟩
  · refine (hids.unshared t c hc).resolve_right fun h => ?_
    cases h _ (Store.mem_pending.1 hr) hid
    exact hu rfl

/-- An id that another call draws. -/
theorem Others.newUuid {id : Uuid} {minted : List (Nat × Uuid)} (hid : id ∉ s.known)
    (hminted : minted = s.minted ∨ minted = (u, id) :: s.minted) :
    Others m t s { s with known := id :: s.known, minted := minted } where
  committed _ _ h := h
  known _ h := .tail _ h
  minted v c h := by
    rcases hminted with rfl | rfl
    · exact h
    · exact .tail _ h
  drawn v c h := by
    rcases hminted with rfl | rfl
    · exact .inl h
    · rcases mem_cons.1 h with h | h
      · cases h
        exact .inr hid
      · exact .inl h
  history _ h := h
  pending := rfl
  locks _ := .rfl
  locked _ _ _ _ h := h
  own c h := by
    rcases hminted with rfl | rfl
    · exact h
    · exact .tail _ h
  unmentioned _ _ h := h
  lost _ := .rfl
  kept _ _ h := h

/-! ## Commits -/

theorem Grows.commit : Grows s (s.commit t call) :=
  ⟨fun _ _ h => Store.committed_commit.2 (.inl h), fun _ h => h, fun _ _ h => h,
    fun _ _ h => .inl h, fun _ h => mem_append_left _ h⟩

theorem mem_history_commit {w : Written Call} :
    w ∈ (s.commit t call).history ↔
      w ∈ s.history ∨ w.thread = t ∧ w.call = call ∧ w.row ∈ s.db.pending t := by
  simp only [Shared.commit, mem_append, List.mem_map]
  refine or_congr_right ⟨?_, ?_⟩
  · rintro ⟨row, hr, rfl⟩
    exact ⟨rfl, rfl, hr⟩
  · rintro ⟨rfl, rfl, hr⟩
    exact ⟨w.row, hr, rfl⟩

/-- A commit keeps ids in use. -/
theorem Ids.commit (hi : Ids s) : Ids (s.commit t call) where
  known e he c hc := by
    rcases Store.mem_commitEntries.1 he with ⟨he, -⟩ | ⟨-, hr⟩
    · exact hi.known e he c hc
    · exact hi.known _ (Store.mem_pending.1 hr) c hc
  minted := hi.minted
  unique := hi.unique
  unshared u c hu := by
    by_cases hrow : ∃ row ∈ s.db.pending t, c ∈ row.ids
    · obtain ⟨row, hr, hc⟩ := hrow
      exact .inl ⟨row, Store.committed_commit.2 (.inr hr), hc⟩
    · rcases hi.unshared u c hu with hp | hp
      · exact .inl (hp.grows .commit)
      · refine .inr fun e he hc => ?_
        rcases Store.mem_commitEntries.1 he with ⟨he, -⟩ | ⟨-, hr⟩
        · exact hp e he hc
        · exact absurd ⟨e.row, hr, hc⟩ hrow

/-- The ledger rows of a transaction that accepts a message. -/
theorem ledgerOf_commit (p : Uuid) (k : String) :
    ledgerOf (s.commit t call) p k = ledgerOf s p k ++
      ((s.db.pending t).filter fun row => call.pair = some (p, k) && row.isLedger).map
        fun row => ⟨t, call, row⟩ := by
  rw [ledgerOf, ledgerOf, Shared.commit, filter_append, filter_map]
  rfl

theorem rankedTo_congr {c : Uuid} {k : AddressKind} {n : Nat}
    (h : ∀ a, a.ActiveFor c k → (s'.db.Committed (.address a) ↔ s.db.Committed (.address a))) :
    RankedTo s' c k n ↔ RankedTo s c k n := by
  refine forall_congr' fun rank => iff_congr (exists_congr fun a => ?_) .rfl
  exact and_congr_left fun ha => h a ha.1

end

/-! ## Quiet steps -/

section
variable [KeyStore]
variable {m : Mode} {settings : Settings} {s s' : Shared Call} {t : Nat} {call : Call}
variable {onConflict : List Key} {a : Store.Inserted} {db : Db} {row : Row}

/-- A step that commits only rows that the invariant does not look at, and deletes none that it
does. -/
structure Quiet (m : Mode) (settings : Settings) (s s' : Shared Call) : Prop where
  lasting : ∀ row : Row, row.lasting → s.db.Committed row → s'.db.Committed row
  back : ∀ row, s'.db.Committed row → s.db.Committed row ∨ (∃ r, row = .template r) ∨
    ∃ r, row = .alias r
  kept : ∀ r, m.kept (.idempotency r.producerId r.key) → s.db.Committed (.idempotency r) →
    s'.db.Committed (.idempotency r)
  entries : ∀ e ∈ s'.db.entries, e ∈ s.db.entries ∨ ∀ id ∈ e.row.ids, id ∈ s.known ∧
    ∀ u, (u, id) ∈ s.minted → Mentioned s id ∨ e.owner = some u
  known : ∀ id ∈ s.known, id ∈ s'.known
  minted : s'.minted = s.minted
  history : s'.history = s.history
  caches : ∀ p ∈ s'.processes, ∀ e ∈ p.dekCache.entries,
    (∃ q ∈ s.processes, e ∈ q.dekCache.entries) ∨ HasDek settings s e.key e.plaintext

theorem Quiet.grows (h : Quiet m settings s s') : Grows s s' :=
  ⟨h.lasting, h.known, fun _ _ hm => h.minted ▸ hm, fun _ _ hm => .inl (h.minted ▸ hm),
    fun _ hw => h.history ▸ hw⟩

/-- What is committed of a table that the invariant looks at was committed before. -/
theorem Quiet.of_committed (h : Quiet m settings s s') (hr : s'.db.Committed row)
    (ht : ∀ r, row ≠ .template r) (ha : ∀ r, row ≠ .alias r) : s.db.Committed row := by
  rcases h.back row hr with h | ⟨r, rfl⟩ | ⟨r, rfl⟩
  · exact h
  · exact absurd rfl (ht r)
  · exact absurd rfl (ha r)

theorem Ids.quiet (hi : Ids s) (h : Quiet m settings s s') : Ids s' where
  known e he id hid := by
    rcases h.entries e he with he | he
    · exact h.known _ (hi.known e he id hid)
    · exact h.known _ (he id hid).1
  minted t c hc := h.known _ (hi.minted t c (h.minted ▸ hc))
  unique t u c ht hu := hi.unique t u c (h.minted ▸ ht) (h.minted ▸ hu)
  unshared t c hc := by
    rw [h.minted] at hc
    rcases hi.unshared t c hc with hp | hp
    · exact .inl (hp.grows h.grows)
    · by_cases hment : Mentioned s c
      · exact .inl (hment.grows h.grows)
      · refine .inr fun e he hce => ?_
        rcases h.entries e he with he | he
        · exact hp e he hce
        · exact ((he c hce).2 t hc).resolve_left hment

theorem Once.quiet (hi : Once m s) (h : Quiet m settings s s') : Once m s' where
  written r hr := by
    rw [h.history]
    exact hi.written r (h.of_committed hr nofun nofun)
  once p k hk := by
    rw [show ledgerOf s' p k = ledgerOf s p k by rw [ledgerOf, h.history, ledgerOf]]
    refine (hi.once p k hk).imp_right ?_
    rintro ⟨t, call, now, c, rfl, rfl, hc, hl⟩
    exact ⟨t, call, now, c, rfl, rfl, h.kept (c.idempotencyRow now) hk hc, hl⟩

/-- A step on the records of lost keys, or on nothing. -/
theorem Quiet.of_eq (hdb : s'.db = s.db) (hk : s'.known = s.known) (hm : s'.minted = s.minted)
    (hh : s'.history = s.history) (hp : s'.processes = s.processes) : Quiet m settings s s' where
  lasting _ _ h := hdb ▸ h
  back _ h := .inl (hdb ▸ h)
  kept _ _ h := hdb ▸ h
  entries _ h := .inl (hdb ▸ h)
  known _ h := hk ▸ h
  minted := hm
  history := hh
  caches _ h _ he := .inl ⟨_, hp ▸ h, he⟩

/-- A step on the rows only. -/
theorem Quiet.of_db (lasting : ∀ row, row.lasting → s.db.Committed row → db.Committed row)
    (back : ∀ row, db.Committed row → s.db.Committed row ∨ (∃ r, row = .template r) ∨
      ∃ r, row = .alias r)
    (kept : ∀ r, m.kept (.idempotency r.producerId r.key) → s.db.Committed (.idempotency r) →
      db.Committed (.idempotency r))
    (entries : ∀ e ∈ db.entries, e ∈ s.db.entries ∨ ∀ id ∈ e.row.ids, id ∈ s.known ∧
      ∀ u, (u, id) ∈ s.minted → Mentioned s id ∨ e.owner = some u) :
    Quiet m settings s { s with db := db } :=
  ⟨lasting, back, kept, entries, fun _ h => h, rfl, rfl, fun _ h _ he => .inl ⟨_, h, he⟩⟩

theorem Quiet.rollback : Quiet m settings s { s with db := s.db.rollback t } :=
  .of_db (fun _ _ h => Store.mem_rollback.2 ⟨h, nofun⟩) (fun _ h => .inl (Store.mem_rollback.1 h).1)
    (fun _ _ h => Store.mem_rollback.2 ⟨h, nofun⟩) fun _ h => .inl (Store.mem_rollback.1 h).1

theorem Quiet.lock {key : Key} {b : Bool} (h : s.db.lock t key = some (b, db)) :
    Quiet m settings s { s with db := db } := by
  have he : db.entries = s.db.entries := Store.lock_entries h
  refine .of_db (fun row _ hr => ?_) (fun row hr => .inl ?_) (fun r _ hr => ?_)
    fun e h => .inl (he ▸ h)
  · rwa [Store.Committed, he]
  · rwa [Store.Committed, he] at hr
  · rwa [Store.Committed, he]

/-- A row inserted: into a transaction, or one that the invariant does not look at. -/
theorem Quiet.insert {o : Option Nat}
    (hinert : o = none → (∃ r, row = .template r) ∨ ∃ r, row = .alias r)
    (hids : ∀ id ∈ row.ids, id ∈ s.known ∧ ∀ u, (u, id) ∈ s.minted → Mentioned s id ∨ o = some u)
    (h : s.db.insert o onConflict row = some (a, db)) : Quiet m settings s { s with db := db } := by
  rcases Store.insert_cases h with ⟨he, -⟩ | rfl
  · refine .of_db (fun _ _ hr => (Store.committed_append he).2 (.inl hr)) (fun row' hr => ?_)
      (fun _ _ hr => (Store.committed_append he).2 (.inl hr)) fun e hmem => ?_
    · rcases (Store.committed_append he).1 hr with hr | ⟨ho, rfl⟩
      · exact .inl hr
      · exact .inr (hinert ho)
    · rw [he, mem_append, mem_singleton] at hmem
      refine hmem.imp_right ?_
      rintro rfl
      exact hids
  · exact .of_eq rfl rfl rfl rfl rfl

/-- A row inserted into the transaction of the call. -/
theorem Quiet.insertTx (hrow : ∀ id ∈ row.ids, UsableBy t s id)
    (h : s.db.insert (some t) onConflict row = some (a, db)) :
    Quiet m settings s { s with db := db } := by
  refine .insert (o := some t) nofun (fun id hid => ⟨(hrow id hid).1, fun u hu => ?_⟩) h
  exact ((hrow id hid).2 u hu).imp_right fun h => by rw [h]

/-- A template, or an alias, inserted on its own. -/
theorem Quiet.insertInert (hrow : (∃ r, row = .template r) ∨ ∃ r, row = .alias r)
    (h : s.db.insert none onConflict row = some (a, db)) :
    Quiet m settings s { s with db := db } := by
  refine .insert (fun _ => hrow) (fun id hid => ?_) h
  rcases hrow with ⟨r, rfl⟩ | ⟨r, rfl⟩ <;> cases hid

/-- Rows of tables that are not lasting, deleted. -/
theorem Quiet.delete {p : Row → Bool} (hp : ∀ row, p row = true → ¬ row.lasting)
    (hkept : ∀ r, m.kept (.idempotency r.producerId r.key) → s.db.Committed (.idempotency r) →
      p (.idempotency r) = false) (h : s.db.delete p = some db) :
    Quiet m settings s { s with db := db } := by
  obtain ⟨he, -⟩ := Store.delete_some h
  exact .of_db (fun row hl hr => (he _).2 ⟨hr, fun h => hp row h.2 hl⟩)
    (fun row hr => .inl ((he _).1 hr).1)
    (fun r hk hr => (he _).2 ⟨hr, fun h => by simp [hkept r hk hr] at h⟩)
    fun e h => .inl ((he e).1 h).1

/-- A cache that got no entry but one for a key that is persisted. -/
theorem Quiet.setProcess {process : Nat} {p q : Process} (hq : s.processes[process]? = some q)
    (hp : ∀ e ∈ p.dekCache.entries, e ∈ q.dekCache.entries ∨ HasDek settings s e.key e.plaintext) :
    Quiet m settings s (s.setProcess process p) where
  lasting _ _ h := h
  back _ h := .inl h
  kept _ _ h := h
  entries _ h := .inl h
  known _ h := h
  minted := rfl
  history := rfl
  caches p' hp' e he := by
    rcases mem_or_eq_of_mem_set hp' with h | rfl
    · exact .inl ⟨p', h, he⟩
    · exact (hp e he).imp_left fun h => ⟨q, mem_of_getElem? hq, h⟩

end

/-! ## The invariant -/

section
variable [KeyStore] [Aes256Gcm]
variable {m : Mode} {settings : Settings} {s s' : Shared Call} {t : Nat} {call : Call}

theorem AddressOf.grows {a : CustomerAddress} (h : AddressOf settings s call a) (hg : Grows s s') :
    AddressOf settings s' call a := by
  obtain ⟨p, destination, hp, h⟩ := h
  exact ⟨p, destination, hp.grows hg, h⟩

theorem RequestOf.grows {r : IncomingRequest} {q : CommsRequest} (h : RequestOf settings s r q)
    (hg : Grows s s') : RequestOf settings s' r q := by
  obtain ⟨p, payload, body, hp, hd, hpl, hb, template, locale, ht, h1, h2, h3, hl, h⟩ := h
  exact ⟨p, payload, body, hp.grows hg, hd, hpl, hb, template, locale, hg.committed _ trivial ht,
    h1, h2, h3, hl.grows hg, h⟩

theorem WrittenOk.quiet (hi : WrittenOk settings s) (h : Quiet m settings s s') :
    WrittenOk settings s' where
  address w hw a ha := by
    obtain ⟨hc, hok⟩ := hi.address w (h.history ▸ hw) a ha
    exact ⟨h.lasting _ trivial hc, hok.grows h.grows⟩
  request w hw q hq := by
    obtain ⟨hc, hok⟩ := hi.request w (h.history ▸ hw) q hq
    exact ⟨h.lasting _ trivial hc, fun p r hr => (hok p r hr).grows h.grows⟩
  outbox w hw o ho := by
    rw [h.history] at hw ⊢
    exact hi.outbox w hw o ho
  addressWritten a ha := by
    rw [h.history]
    exact hi.addressWritten a (h.of_committed ha nofun nofun)
  outboxWritten o ho := by
    rw [h.history]
    exact hi.outboxWritten o (h.of_committed ho nofun nofun)

section
variable (hi : Inv m settings s)
include hi

theorem Inv.quiet (h : Quiet m settings s s') : Inv m settings s' where
  ids := hi.ids.quiet h
  caches p hp e he := by
    rcases h.caches p hp e he with ⟨q, hq, he⟩ | hd
    · exact (hi.caches q hq e he).grows h.grows
    · exact hd.grows h.grows
  ranks c k := by
    obtain ⟨n, hn⟩ := hi.ranks c k
    exact ⟨n, (rankedTo_congr fun a _ =>
      ⟨fun ha => h.of_committed ha nofun nofun, h.lasting _ trivial⟩).2 hn⟩
  written := hi.written.quiet h
  once := hi.once.quiet h
  customers hm d hd := (hi.customers hm d (h.of_committed hd nofun nofun)).grows h.grows

theorem Inv.looked : Inv m settings (s.looked t) :=
  hi.quiet (.of_eq rfl rfl rfl rfl rfl)

theorem Inv.rollback : Inv m settings { s with db := s.db.rollback t } :=
  hi.quiet .rollback

theorem Inv.drop : Inv m settings (s.drop t) :=
  (hi.rollback (t := t)).looked (t := t)

/-! ### New ids, new keys and commits -/

/-- A new id, drawn by the call `t`. -/
theorem Inv.newUuid {id : Uuid} {minted : List (Nat × Uuid)}
    (hid : id ∉ s.known) (hminted : minted = s.minted ∨ minted = (t, id) :: s.minted) :
    Inv m settings { s with known := id :: s.known, minted := minted } := by
  have hg : Grows s { s with known := id :: s.known, minted := minted } :=
    (Others.newUuid (m := m) (t := t) hid hminted).toGrows
  have hmem : ∀ u c, (u, c) ∈ minted → (u, c) ∈ s.minted ∨ (u = t ∧ c = id) := by
    intro u c h
    rcases hminted with rfl | rfl
    · exact .inl h
    · rcases mem_cons.1 h with h | h
      · cases h
        exact .inr ⟨rfl, rfl⟩
      · exact .inl h
  exact {
    ids := {
      known := fun e he c hc => .tail _ (hi.ids.known e he c hc)
      minted := fun u c h => by
        rcases hmem u c h with h | ⟨-, rfl⟩
        · exact .tail _ (hi.ids.minted u c h)
        · exact .head _
      unique := fun u v c hu hv => by
        rcases hmem u c hu with hu | ⟨rfl, rfl⟩ <;> rcases hmem v c hv with hv | ⟨rfl, hc⟩
        · exact hi.ids.unique u v c hu hv
        · exact absurd (hi.ids.minted u c hu) (hc ▸ hid)
        · exact absurd (hi.ids.minted v c hv) hid
        · rfl
      unshared := fun u c h => by
        rcases hmem u c h with h | ⟨-, rfl⟩
        · exact hi.ids.unshared u c h
        · exact .inr fun e he hc => absurd (hi.ids.known e he _ hc) hid }
    caches := fun p hp e he => (hi.caches p hp e he).grows hg
    ranks := hi.ranks
    written := {
      address := fun w hw a ha => ((hi.written.address w hw a ha).imp_right (·.grows hg))
      request := fun w hw q hq =>
        (hi.written.request w hw q hq).imp_right fun h p r hr => (h p r hr).grows hg
      outbox := hi.written.outbox
      addressWritten := hi.written.addressWritten
      outboxWritten := hi.written.outboxWritten }
    once := ⟨hi.once.written, hi.once.once⟩
    customers := hi.customers }

/-- A key that is persisted on its own. -/
theorem Inv.insertDek {onConflict : List Key} {a : Store.Inserted} {db : Db} {d : CustomerDek}
    (hd : Usable s d.customerId) (hm : m.customersOnly → Published s d.customerId)
    (h : s.db.insert none onConflict (.customerDek d) = some (a, db)) :
    Inv m settings { s with db := db } := by
  rcases Store.insert_cases h with ⟨he, -⟩ | rfl
  · have hcom : ∀ row, Store.Committed db row ↔ s.db.Committed row ∨ row = .customerDek d :=
      fun row => (Store.committed_append he).trans (by simp)
    have hg : Grows s { s with db := db } :=
      ⟨fun row _ hr => (hcom row).2 (.inl hr), fun _ h => h, fun _ _ h => h, fun _ _ h => .inl h,
        fun _ h => h⟩
    have hback : ∀ row, Store.Committed db row → (∀ d, row ≠ .customerDek d) →
        s.db.Committed row :=
      fun row hr hne => ((hcom row).1 hr).resolve_right (hne d)
    exact {
      ids := {
        known := fun e hmem c hc => by
          rw [he, mem_append, mem_singleton] at hmem
          rcases hmem with hmem | rfl
          · exact hi.ids.known e hmem c hc
          · cases mem_singleton.1 hc
            exact hd.1
        minted := hi.ids.minted
        unique := hi.ids.unique
        unshared := fun u c hu => by
          rcases hi.ids.unshared u c hu with hp | hp
          · exact .inl (hp.grows hg)
          · by_cases hment : Mentioned s c
            · exact .inl (hment.grows hg)
            · refine .inr fun e hmem hc => ?_
              rw [he, mem_append, mem_singleton] at hmem
              rcases hmem with hmem | rfl
              · exact hp e hmem hc
              · cases mem_singleton.1 hc
                exact absurd (hd.2 u hu) hment }
      caches := fun p hp e hmem => (hi.caches p hp e hmem).grows hg
      ranks := fun c k => by
        obtain ⟨n, hn⟩ := hi.ranks c k
        exact ⟨n, (rankedTo_congr fun a _ =>
          ⟨fun ha => hback _ ha nofun, fun ha => (hcom _).2 (.inl ha)⟩).2 hn⟩
      written := {
        address := fun w hw a ha => (hi.written.address w hw a ha).imp (hg.committed _ trivial)
          (·.grows hg)
        request := fun w hw q hq => (hi.written.request w hw q hq).imp (hg.committed _ trivial)
          fun h p r hr => (h p r hr).grows hg
        outbox := hi.written.outbox
        addressWritten := fun a ha => hi.written.addressWritten a (hback _ ha nofun)
        outboxWritten := fun o ho => hi.written.outboxWritten o (hback _ ho nofun) }
      once := {
        written := fun r hr => hi.once.written r (hback _ hr nofun)
        once := fun p k hk => (hi.once.once p k hk).imp_right <| by
          rintro ⟨t, call, now, c, h1, h2, h3, h4⟩
          exact ⟨t, call, now, c, h1, h2, (hcom _).2 (.inl h3), h4⟩ }
      customers := fun hmode d' hd' => by
        rcases (hcom _).1 hd' with hd' | hd'
        · exact (hi.customers hmode d' hd').grows hg
        · cases hd'
          exact (hm hmode).grows hg }
  all_goals exact hi

end

/-- What a commit asks of the rows of its transaction. -/
structure CommitOk (m : Mode) (settings : Settings) (t : Nat) (call : Call) (s : Shared Call) :
    Prop where
  address : ∀ a, .address a ∈ s.db.pending t → AddressOf settings (s.commit t call) call a
  request : ∀ q, .commsRequest q ∈ s.db.pending t → ∀ process r, call = .createComms process r →
    RequestOf settings (s.commit t call) r q
  ranks : ∀ c k, ∃ n, RankedTo (s.commit t call) c k n
  customers : m.customersOnly → ∀ d, .customerDek d ∈ s.db.pending t →
    Published (s.commit t call) d.customerId
  ledger : (∀ row ∈ s.db.pending t, row.isLedger = false) ∨
    ∃ now c, s.db.pending t = acceptedRows now c ∧ call.pair = some (c.producerId, c.idempotencyKey)

/-- The queue row of an accepted message belongs to its ledger row. -/
theorem CommitOk.outbox (h : CommitOk m settings t call s) {o : OutboxRow}
    (ho : .outbox o ∈ s.db.pending t) : ∃ q, .commsRequest q ∈ s.db.pending t ∧
      q.id = o.commsRequestId ∧ q.createdAt = o.createdAt ∧ q.customerId = o.customerId := by
  rcases h.ledger with h | ⟨now, c, hp, -⟩
  · exact absurd (h _ ho) (by simp [Row.isLedger])
  · rw [hp] at ho ⊢
    obtain rfl : o = c.outboxRow now := by simpa [acceptedRows] using ho
    exact ⟨c.request now, by simp [acceptedRows], rfl, rfl, rfl⟩

/-- A commit that is in order keeps what is written readable. -/
theorem WrittenOk.commit (hi : WrittenOk settings s) (h : CommitOk m settings t call s) :
    WrittenOk settings (s.commit t call) where
  address w hw a ha := by
    rcases mem_history_commit.1 hw with hw | ⟨-, hc, hr⟩
    · exact (hi.address w hw a ha).imp (Grows.commit.committed _ trivial) (·.grows .commit)
    · rw [ha] at hr
      exact ⟨Store.committed_commit.2 (.inr hr), hc ▸ h.address a hr⟩
  request w hw q hq := by
    rcases mem_history_commit.1 hw with hw | ⟨-, hc, hr⟩
    · exact (hi.request w hw q hq).imp (Grows.commit.committed _ trivial)
        fun h p r hr => (h p r hr).grows .commit
    · rw [hq] at hr
      exact ⟨Store.committed_commit.2 (.inr hr), fun p r hwc => h.request q hr p r (hc ▸ hwc)⟩
  outbox w hw o ho := by
    rcases mem_history_commit.1 hw with hw | ⟨ht, hc, hr⟩
    · obtain ⟨q, hq, h⟩ := hi.outbox w hw o ho
      exact ⟨q, mem_history_commit.2 (.inl hq), h⟩
    · rw [ho] at hr
      obtain ⟨q, hq, h⟩ := h.outbox hr
      exact ⟨q, mem_history_commit.2 (.inr ⟨ht, hc, hq⟩), h⟩
  addressWritten a ha := by
    rcases Store.committed_commit.1 ha with ha | ha
    · obtain ⟨w, hw, h⟩ := hi.addressWritten a ha
      exact ⟨w, mem_history_commit.2 (.inl hw), h⟩
    · exact ⟨⟨t, call, .address a⟩, mem_history_commit.2 (.inr ⟨rfl, rfl, ha⟩), rfl⟩
  outboxWritten o ho := by
    rcases Store.committed_commit.1 ho with ho | ho
    · obtain ⟨w, hw, h⟩ := hi.outboxWritten o ho
      exact ⟨w, mem_history_commit.2 (.inl hw), h⟩
    · exact ⟨⟨t, call, .outbox o⟩, mem_history_commit.2 (.inr ⟨rfl, rfl, ho⟩), rfl⟩

/-- A commit that is in order keeps one message for a key. -/
theorem Once.commit (hi : Once m s) (h : CommitOk m settings t call s) :
    Once m (s.commit t call) where
  written r hr := by
    rcases Store.committed_commit.1 hr with hr | hr
    · obtain ⟨w, hw, h⟩ := hi.written r hr
      exact ⟨w, mem_history_commit.2 (.inl hw), h⟩
    · refine ⟨⟨t, call, .idempotency r⟩, mem_history_commit.2 (.inr ⟨rfl, rfl, hr⟩), rfl, ?_⟩
      rcases h.ledger with h | ⟨now, c, hp, hpair⟩
      · exact absurd (h _ hr) (by simp [Row.isLedger])
      · rw [hp] at hr
        obtain rfl : r = c.idempotencyRow now := by simpa [acceptedRows] using hr
        exact hpair
  once p k hk := by
    rw [ledgerOf_commit]
    rcases h.ledger with hno | ⟨now, c, hp, hpair⟩
    · -- a transaction without ledger rows
      have hnil : ((s.db.pending t).filter fun row => call.pair = some (p, k) && row.isLedger) =
          [] := filter_eq_nil_iff.2 fun row hr => by simp [hno row hr]
      rw [hnil, map_nil, append_nil]
      refine (hi.once p k hk).imp_right ?_
      rintro ⟨t', call', now, c, h1, h2, h3, h4⟩
      exact ⟨t', call', now, c, h1, h2, Store.committed_commit.2 (.inl h3), h4⟩
    · by_cases heq : call.pair = some (p, k)
      · -- the key was free: a committed row with it would share it with the pending one
        have hpk : c.producerId = p ∧ c.idempotencyKey = k := by
          rw [hpair] at heq
          exact Prod.mk.injEq _ _ _ _ ▸ Option.some_inj.1 heq
        obtain ⟨rfl, rfl⟩ := hpk
        have hmem : .idempotency (c.idempotencyRow now) ∈ s.db.pending t := by
          rw [hp]; simp [acceptedRows]
        have hfree : ledgerOf s c.producerId c.idempotencyKey = [] := by
          refine (hi.once _ _ hk).resolve_right ?_
          rintro ⟨t', call', now', c', h1, h2, h3, -⟩
          exact h3.key_not_mem hmem (Row.idempotency_mem_keys.2 ⟨_, rfl, rfl, rfl⟩)
            (Row.idempotency_mem_keys.2 ⟨_, rfl, h1, h2⟩)
        refine .inr ⟨t, call, now, c, rfl, rfl, Store.committed_commit.2 (.inr hmem), ?_⟩
        rw [hfree, nil_append, hp, heq]
        simp [acceptedRows, Row.isLedger]
      · have hnil : ((s.db.pending t).filter fun row => call.pair = some (p, k) && row.isLedger) =
            [] := filter_eq_nil_iff.2 fun row _ => by simp [heq]
        rw [hnil, map_nil, append_nil]
        refine (hi.once p k hk).imp_right ?_
        rintro ⟨t', call', now, c, h1, h2, h3, h4⟩
        exact ⟨t', call', now, c, h1, h2, Store.committed_commit.2 (.inl h3), h4⟩

/-- A commit keeps the invariant. -/
theorem Inv.commit (hi : Inv m settings s) (h : CommitOk m settings t call s) :
    Inv m settings (s.commit t call) where
  ids := hi.ids.commit
  caches p hp e he := (hi.caches p hp e he).grows .commit
  ranks := h.ranks
  written := hi.written.commit h
  once := hi.once.commit h
  customers hm d hd := by
    rcases Store.committed_commit.1 hd with hd | hd
    · exact (hi.customers hm d hd).grows .commit
    · exact h.customers hm d hd

/-- The invariant holds of a tenant just provisioned. -/
theorem Inv.empty : Inv m settings .empty where
  ids := {
    known := fun _ h => nomatch h
    minted := fun _ _ h => nomatch h
    unique := fun _ _ _ h => nomatch h
    unshared := fun _ _ h => nomatch h }
  caches := fun _ h => nomatch h
  ranks _ _ := by
    refine ⟨0, fun rank => ⟨?_, fun h => by omega⟩⟩
    rintro ⟨a, ha, -⟩
    cases ha
  written := {
    address := fun _ h => nomatch h
    request := fun _ h => nomatch h
    outbox := fun _ h => nomatch h
    addressWritten := fun _ h => nomatch h
    outboxWritten := fun _ h => nomatch h }
  once := ⟨fun _ h => (nomatch h), fun _ _ _ => .inl rfl⟩
  customers _ _ h := nomatch h

end

end Messgr.Ingest
