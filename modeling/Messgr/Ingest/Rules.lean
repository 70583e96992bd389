import Messgr.Ingest.Handler

/-!
# What the calls rely on

The rules by which the calls of `Messgr.Ingest.Handler` are verified (`Messgr.Lib.Prog`). `Inv` is
the invariant of the database and the caches: an id that a call has drawn is in no row of another
call before it is committed; a cached key is the one that the customer's row unwraps to; the ranks
of a customer's active addresses have no gaps; every committed row is what its call asks for.
`Others` is what the other calls do between two statements of a call. A `Mode` says which
idempotency keys stay.
-/

namespace Messgr.Ingest

open Tx (Store)

/-! ## Facts about the database -/

/-- A customer of this id is committed. -/
def Published (s : Shared Call) (id : Uuid) : Prop := ∃ r, s.db.Committed (.customer r) ∧ r.id = id

/-- The customer's key is persisted and unwraps to `plaintext`. -/
def HasDek [KeyStore] (settings : Settings) (s : Shared Call) (customerId : Uuid)
    (plaintext : Bytes) : Prop :=
  ∃ d, s.db.Committed (.customerDek d) ∧ d.customerId = customerId ∧
    KeyStore.unwrapDek settings.vaultMount d.wrappedDek = some plaintext

/-- The locale, if there is one, is one that a master system has reported for the customer. -/
def LocaleOf (s : Shared Call) (customerId : Uuid) (locale : Option String) : Prop :=
  ∀ l, locale = some l → ∃ c, s.db.Committed (.customer c) ∧ c.id = customerId ∧
    nonProvisionalLocale c = some l

/-- A committed row has this id. -/
def Mentioned (s : Shared Call) (id : Uuid) : Prop := ∃ row, s.db.Committed row ∧ id ∈ row.ids

/-- An id that the call `t` may write: it has occurred, and no other call has drawn it without
committing. -/
def UsableBy (t : Nat) (s : Shared Call) (id : Uuid) : Prop :=
  id ∈ s.known ∧ ∀ u, (u, id) ∈ s.minted → Mentioned s id ∨ u = t

/-- An id that every call may write. -/
def Usable (s : Shared Call) (id : Uuid) : Prop :=
  id ∈ s.known ∧ ∀ t, (t, id) ∈ s.minted → Mentioned s id

variable {s : Shared Call} {id : Uuid}

theorem Usable.usableBy (h : Usable s id) (t : Nat) : UsableBy t s id :=
  ⟨h.1, fun u hu => .inl (h.2 u hu)⟩

/-- The rows that nothing deletes. -/
def Row.lasting : Row → Prop
  | .idempotency _ => False
  | .outbox _ => False
  | _ => True

/-- A customer has one key. -/
theorem HasDek.unique [KeyStore] {settings : Settings} {c : Uuid} {p q : Bytes}
    (hp : HasDek settings s c p) (hq : HasDek settings s c q) : p = q := by
  obtain ⟨d, hd, hc, hu⟩ := hp
  obtain ⟨d', hd', hc', hu'⟩ := hq
  have hk : Key.customerDek c ∈ Row.keys (.customerDek d) := by simp [Row.keys, hc]
  have hk' : Key.customerDek c ∈ Row.keys (.customerDek d') := by simp [Row.keys, hc']
  cases hd.eq_of_key hd' hk hk'
  rw [hu, Option.some_inj] at hu'
  exact hu'

theorem mentions_iff : s.mentions id = true ↔ Mentioned s id := by
  simp only [Shared.mentions, List.any_eq_true, Store.mem_visible_none, decide_eq_true_eq,
    Mentioned]

theorem Published.mentioned (h : Published s id) : Mentioned s id := by
  obtain ⟨r, hr, rfl⟩ := h
  exact ⟨_, hr, by simp [Row.ids]⟩

/-! ## How the state changes -/

/-- What every step does: lasting rows stay, ids stay in use, and an id that is drawn is new. -/
structure Grows (s s' : Shared Call) : Prop where
  committed : ∀ row : Row, row.lasting → s.db.Committed row → s'.db.Committed row
  known : ∀ id ∈ s.known, id ∈ s'.known
  minted : ∀ t c, (t, c) ∈ s.minted → (t, c) ∈ s'.minted
  drawn : ∀ t c, (t, c) ∈ s'.minted → (t, c) ∈ s.minted ∨ c ∉ s.known
  history : ∀ w ∈ s.history, w ∈ s'.history

section
variable {s s' s'' : Shared Call} {t u : Nat} {c : Uuid}

theorem Grows.refl (s : Shared Call) : Grows s s :=
  ⟨fun _ _ h => h, fun _ h => h, fun _ _ h => h, fun _ _ h => .inl h, fun _ h => h⟩

theorem Grows.trans (h1 : Grows s s') (h2 : Grows s' s'') : Grows s s'' where
  committed row hl h := h2.committed row hl (h1.committed row hl h)
  known id h := h2.known id (h1.known id h)
  minted t c h := h2.minted t c (h1.minted t c h)
  drawn t c h := by
    rcases h2.drawn t c h with h | h
    · exact h1.drawn t c h
    · exact .inr fun hk => h (h1.known c hk)
  history w h := h2.history w (h1.history w h)

theorem Published.grows (h : Published s c) (hg : Grows s s') : Published s' c := by
  obtain ⟨r, hr, hid⟩ := h
  exact ⟨r, hg.committed _ trivial hr, hid⟩

theorem HasDek.grows [KeyStore] {settings : Settings} {p : Bytes} (h : HasDek settings s c p)
    (hg : Grows s s') : HasDek settings s' c p := by
  obtain ⟨d, hd, hc⟩ := h
  exact ⟨d, hg.committed _ trivial hd, hc⟩

theorem LocaleOf.grows {locale : Option String} (h : LocaleOf s c locale) (hg : Grows s s') :
    LocaleOf s' c locale := by
  intro l hl
  obtain ⟨r, hr, h⟩ := h l hl
  exact ⟨r, hg.committed _ trivial hr, h⟩

theorem Row.lasting_of_ids {row : Row} (h : id ∈ row.ids) : row.lasting := by
  cases row <;> trivial

theorem Mentioned.grows (h : Mentioned s c) (hg : Grows s s') : Mentioned s' c := by
  obtain ⟨row, hr, hid⟩ := h
  exact ⟨row, hg.committed _ (Row.lasting_of_ids hid) hr, hid⟩

theorem UsableBy.grows (h : UsableBy t s c) (hg : Grows s s') : UsableBy t s' c := by
  refine ⟨hg.known c h.1, fun u hu => ?_⟩
  rcases hg.drawn u c hu with hu | hk
  · exact (h.2 u hu).imp_left (·.grows hg)
  · exact absurd h.1 hk

theorem Usable.grows (h : Usable s c) (hg : Grows s s') : Usable s' c := by
  refine ⟨hg.known c h.1, fun t ht => ?_⟩
  rcases hg.drawn t c ht with ht | hk
  · exact (h.2 t ht).grows hg
  · exact absurd h.1 hk

/-- Besides, what a step that commits none of its rows keeps for a call: the ids it has drawn, and
that they are not committed. -/
structure Keeps (t : Nat) (s s' : Shared Call) : Prop extends Grows s s' where
  own : ∀ c, (t, c) ∈ s.minted → (t, c) ∈ s'.minted
  unmentioned : ∀ c, (t, c) ∈ s.minted → Mentioned s' c → Mentioned s c

/-- Besides, what a step that does not end its transaction keeps for a call: its locks, and the rows
that reference what it has locked. -/
structure HoldsLocks (t : Nat) (s s' : Shared Call) : Prop extends Keeps t s s' where
  locks : ∀ k, (t, k) ∈ s'.db.locks ↔ (t, k) ∈ s.db.locks
  locked : ∀ k, (t, k) ∈ s.db.locks → ∀ row : Row, k ∈ row.refs → s'.db.Committed row →
    s.db.Committed row

/-- What a step outside its transaction keeps for a call: all that, and its pending rows. -/
structure Same (t : Nat) (s s' : Shared Call) : Prop extends HoldsLocks t s s' where
  pending : s'.db.pending t = s.db.pending t

theorem Keeps.refl (t : Nat) (s : Shared Call) : Keeps t s s :=
  ⟨.refl s, fun _ h => h, fun _ _ h => h⟩

theorem Keeps.trans (h1 : Keeps t s s') (h2 : Keeps t s' s'') : Keeps t s s'' where
  toGrows := h1.toGrows.trans h2.toGrows
  own c h := h2.own c (h1.own c h)
  unmentioned c hc h := h1.unmentioned c hc (h2.unmentioned c (h1.own c hc) h)

theorem HoldsLocks.refl (t : Nat) (s : Shared Call) : HoldsLocks t s s :=
  ⟨.refl t s, fun _ => .rfl, fun _ _ _ _ h => h⟩

theorem HoldsLocks.trans (h1 : HoldsLocks t s s') (h2 : HoldsLocks t s' s'') :
    HoldsLocks t s s'' where
  toKeeps := h1.toKeeps.trans h2.toKeeps
  locks k := (h2.locks k).trans (h1.locks k)
  locked k hk row hr h := h1.locked k hk row hr (h2.locked k ((h1.locks k).2 hk) row hr h)

theorem Same.refl (t : Nat) (s : Shared Call) : Same t s s := ⟨.refl t s, rfl⟩

theorem Same.trans (h1 : Same t s s') (h2 : Same t s' s'') : Same t s s'' :=
  ⟨h1.toHoldsLocks.trans h2.toHoldsLocks, h2.pending.trans h1.pending⟩

end

/-! ## The rules -/

/-- What a group of results assumes of the runs: the keys that no sweep deletes, whether no sweep
deletes a key that a call has found taken and not looked up since, and whether keys are created for
customers only. -/
structure Mode where
  kept : Key → Prop
  keptWhenLost : Prop
  customersOnly : Prop

/-- No assumption. -/
def Mode.any : Mode := ⟨fun _ => False, False, False⟩

/-- A sweep does not delete the row with this key while the call `t` is where it is. -/
def Mode.Keeps (m : Mode) (t : Nat) (s : Shared Call) (k : Key) : Prop :=
  m.kept k ∨ m.keptWhenLost ∧ (t, k) ∈ s.lost

/-- What the others do between two statements of the call `t`. -/
structure Others (m : Mode) (t : Nat) (s s' : Shared Call) : Prop extends Same t s s' where
  lost : ∀ k, (t, k) ∈ s'.lost ↔ (t, k) ∈ s.lost
  kept : ∀ r, m.Keeps t s (.idempotency r.producerId r.key) → s.db.Committed (.idempotency r) →
    s'.db.Committed (.idempotency r)

section
variable {m : Mode} {s s' s'' : Shared Call} {t u : Nat}

theorem Mode.Keeps.of_lost {k : Key} (h : m.Keeps t s k)
    (hl : (t, k) ∈ s'.lost ↔ (t, k) ∈ s.lost) : m.Keeps t s' k :=
  h.imp_right fun h => ⟨h.1, hl.2 h.2⟩

theorem Others.refl (m : Mode) (t : Nat) (s : Shared Call) : Others m t s s :=
  ⟨.refl t s, fun _ => .rfl, fun _ _ h => h⟩

theorem Others.trans (h1 : Others m t s s') (h2 : Others m t s' s'') : Others m t s s'' where
  toSame := h1.toSame.trans h2.toSame
  lost k := (h2.lost k).trans (h1.lost k)
  kept r hk h := h2.kept r (hk.of_lost (h1.lost _)) (h1.kept r hk h)

/-- A statement of another call that deletes nothing. -/
theorem Others.of_db (hdb : Tx.Others (fun _ => True) t s.db s'.db)
    (hknown : ∀ id ∈ s.known, id ∈ s'.known) (hminted : s'.minted = s.minted)
    (hlost : ∀ k, (t, k) ∈ s'.lost ↔ (t, k) ∈ s.lost) (hhistory : ∀ w ∈ s.history, w ∈ s'.history)
    (hment : ∀ c, (t, c) ∈ s.minted → Mentioned s' c → Mentioned s c) : Others m t s s' where
  committed row _ := hdb.committed row trivial
  known := hknown
  minted _ _ h := hminted ▸ h
  drawn _ _ h := .inl (hminted ▸ h)
  history := hhistory
  pending := hdb.pending
  locks := hdb.locks
  locked := hdb.locked
  own _ h := hminted ▸ h
  unmentioned := hment
  lost := hlost
  kept _ _ h := hdb.committed _ trivial h

end

/-! ## The invariant -/

/-- Ids of rows are in use, and one that a call has drawn is in no other call's row before it is
committed. -/
structure Ids (s : Shared Call) : Prop where
  known : ∀ e ∈ s.db.entries, ∀ id ∈ e.row.ids, id ∈ s.known
  minted : ∀ t c, (t, c) ∈ s.minted → c ∈ s.known
  unique : ∀ t u c, (t, c) ∈ s.minted → (u, c) ∈ s.minted → t = u
  unshared : ∀ t c, (t, c) ∈ s.minted →
    Mentioned s c ∨ ∀ e ∈ s.db.entries, c ∈ e.row.ids → e.owner = some t

/-- An active address of a customer, of a kind. -/
def CustomerAddress.ActiveFor (a : CustomerAddress) (customerId : Uuid) (kind : AddressKind) :
    Prop :=
  a.customerId = customerId ∧ a.kind = kind ∧ a.activeTo = none

/-- The ranks of the customer's active addresses of a kind are one to `n`. -/
def RankedTo (s : Shared Call) (customerId : Uuid) (kind : AddressKind) (n : Nat) : Prop :=
  ∀ rank, (∃ a, s.db.Committed (.address a) ∧ a.ActiveFor customerId kind ∧ a.rank = rank) ↔
    1 ≤ rank ∧ rank ≤ n

namespace Call

/-- The destination that a call resolves. -/
def destination : Call → Option String
  | .createComms _ r => some r.body.destination
  | .resolve _ _ destination _ => some destination
  | _ => none

/-- The producer and idempotency key that a call accepts a message under. -/
def pair : Call → Option (Uuid × String)
  | .createComms _ r => (r.idempotencyKey.filter (· ≠ "")).map (r.producerId, ·)
  | .insertTransactional c => some (c.producerId, c.idempotencyKey)
  | _ => none

end Call

section
variable [KeyStore] [Aes256Gcm] (settings : Settings)

/-- The address decrypts under its customer's key, with its id, to the destination of its call. -/
def AddressOf (s : Shared Call) (call : Call) (a : CustomerAddress) : Prop :=
  ∃ p destination, HasDek settings s a.customerId p ∧ call.destination = some destination ∧
    decrypt p a.id.asBytes a.valueCiphertext = .ok (asBytes destination)

/-- The text is the request's template, rendered in the locale of the request, else the customer's,
else the tenant's. -/
def Rendered (s : Shared Call) (r : IncomingRequest) (customerId : Uuid) (body : String) : Prop :=
  ∃ template locale, s.db.Committed (.template template) ∧
    template.templateId = r.body.templateId ∧ template.version = r.body.templateVersion ∧
    template.locale = (r.body.locale <|> locale).getD settings.defaultLocale ∧
    LocaleOf s customerId locale ∧ render template.body r.body.templateVariables = .ok body

/-- The ledger row decrypts under its customer's key, with its id, to the request's destination and
rendered body. -/
def RequestOf (s : Shared Call) (r : IncomingRequest) (q : CommsRequest) : Prop :=
  ∃ p payload body, HasDek settings s q.customerId p ∧
    decrypt p q.id.asBytes q.destinationCiphertext = .ok (asBytes r.body.destination) ∧
    q.payloadCiphertext = some payload ∧
    decrypt p q.id.asBytes payload = .ok (asBytes body) ∧
    Rendered settings s r q.customerId body

/-- The rows that calls have committed are what the calls ask for. -/
structure WrittenOk (s : Shared Call) : Prop where
  address : ∀ w ∈ s.history, ∀ a, w.row = .address a →
    s.db.Committed (.address a) ∧ AddressOf settings s w.call a
  request : ∀ w ∈ s.history, ∀ q, w.row = .commsRequest q →
    s.db.Committed (.commsRequest q) ∧
      ∀ process r, w.call = .createComms process r → RequestOf settings s r q
  outbox : ∀ w ∈ s.history, ∀ o, w.row = .outbox o →
    ∃ q, ⟨w.thread, w.call, .commsRequest q⟩ ∈ s.history ∧ q.id = o.commsRequestId ∧
      q.createdAt = o.createdAt ∧ q.customerId = o.customerId
  addressWritten : ∀ a, s.db.Committed (.address a) → ∃ w ∈ s.history, w.row = .address a
  outboxWritten : ∀ o, s.db.Committed (.outbox o) → ∃ w ∈ s.history, w.row = .outbox o

end

/-- A row of the ledger, the queue or the idempotency keys. -/
def Row.isLedger : Row → Bool
  | .idempotency _ => true
  | .commsRequest _ => true
  | .outbox _ => true
  | _ => false

/-- What was ever committed for a producer and idempotency key. -/
def ledgerOf (s : Shared Call) (producerId : Uuid) (key : String) : List (Written Call) :=
  s.history.filter fun w => w.call.pair = some (producerId, key) && w.row.isLedger

/-- The three rows that accepting the message `c` at `now` writes. -/
def acceptedRows (now : Time) (c : NewComms) : List Row :=
  [.idempotency (c.idempotencyRow now), .commsRequest (c.request now), .outbox (c.outboxRow now)]

/-- Idempotency rows are written by calls with their key; a kept key has nothing committed for it,
or the three rows of one message. -/
structure Once (m : Mode) (s : Shared Call) : Prop where
  written : ∀ r, s.db.Committed (.idempotency r) →
    ∃ w ∈ s.history, w.row = .idempotency r ∧ w.call.pair = some (r.producerId, r.key)
  once : ∀ producerId key, m.kept (.idempotency producerId key) →
    ledgerOf s producerId key = [] ∨ ∃ t call now c, c.producerId = producerId ∧
      c.idempotencyKey = key ∧ s.db.Committed (.idempotency (c.idempotencyRow now)) ∧
      ledgerOf s producerId key = (acceptedRows now c).map fun row => ⟨t, call, row⟩

section
variable [KeyStore] [Aes256Gcm]

/-- The invariant. -/
structure Inv (m : Mode) (settings : Settings) (s : Shared Call) : Prop where
  ids : Ids s
  caches : ∀ p ∈ s.processes, ∀ e ∈ p.dekCache.entries, HasDek settings s e.key e.plaintext
  ranks : ∀ customerId kind, ∃ n, RankedTo s customerId kind n
  written : WrittenOk settings s
  once : Once m s
  customers : m.customersOnly → ∀ d, s.db.Committed (.customerDek d) → Published s d.customerId

/-- The rules of the system. -/
def rules [UuidCrate] [HmacSha256] (m : Mode) (settings : Settings) : Rules (system settings) where
  inv := Inv m settings
  others := Others m
  refl := Others.refl m
  trans _ _ _ _ := Others.trans
  considered _ _ _ _ _ := True

/-- `Rules.Wp` under these rules. -/
abbrev Wp [UuidCrate] [HmacSha256] (m : Mode) (settings : Settings) {β : Type} :=
  (rules m settings).Wp (β := β)

end

end Messgr.Ingest
