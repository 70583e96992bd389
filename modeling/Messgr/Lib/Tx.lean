import Mathlib.Data.List.Basic
import Mathlib.Data.List.Pairwise

/-!
# Transactions over rows with unique keys

A store of rows as a relational database keeps them under READ COMMITTED. A row occupies unique keys
and references keys of other rows (`Schema`); the rows of all tables are of one type. An entry is
committed, or pending in the transaction of a thread. Statements see the committed rows and those of
their own transaction.

`Store` carries what the database enforces: no two rows share a key, committed or pending; what a
row references is there; a locked row has one holder, and only its holder has pending rows that
reference it. `Store.insert` is `INSERT .. ON CONFLICT .. DO NOTHING`: it waits for a pending row of
another transaction that has one of its keys, and for the lock on a row it references. `Others`
bounds what the other threads do between two statements of a thread, and every operation keeps
within it.
-/

namespace Tx

open List

/-- The unique keys that a row occupies, and the keys that it references. -/
class Schema (ρ : Type*) (κ : outParam Type*) where
  keys : ρ → List κ
  refs : ρ → List κ

open Schema

/-- A row: committed, or pending in the transaction of a thread. -/
structure Entry (ρ : Type*) where
  owner : Option Nat
  row : ρ

section
variable {ρ κ : Type*} [Schema ρ κ]

/-- Two rows share a unique key. -/
def Clash (a b : ρ) : Prop := ∃ k ∈ keys a, k ∈ keys b

theorem Clash.symm {a b : ρ} (h : Clash a b) : Clash b a := by
  obtain ⟨k, ha, hb⟩ := h
  exact ⟨k, hb, ha⟩

instance [DecidableEq κ] (a b : ρ) : Decidable (Clash a b) :=
  inferInstanceAs (Decidable (∃ k ∈ keys a, k ∈ keys b))

/-- Whether a statement of the transaction `o`, or of none, sees an entry. -/
def Entry.seenBy (e : Entry ρ) (o : Option Nat) : Prop := e.owner = none ∨ e.owner = o

instance (e : Entry ρ) (o : Option Nat) : Decidable (e.seenBy o) :=
  inferInstanceAs (Decidable (_ ∨ _))

end

/-- The rows of a database and the row locks that transactions hold. -/
structure Store (ρ : Type*) {κ : Type*} [Schema ρ κ] where
  entries : List (Entry ρ)
  locks : List (Nat × κ)
  distinct : entries.Pairwise fun a b => ¬ Clash a.row b.row
  closed : ∀ e ∈ entries, ∀ k ∈ refs e.row, ∃ f ∈ entries, k ∈ keys f.row ∧ f.seenBy e.owner
  exclusive : ∀ t u k, (t, k) ∈ locks → (u, k) ∈ locks → t = u
  guarded : ∀ t k, (t, k) ∈ locks → ∀ e ∈ entries, k ∈ refs e.row → e.seenBy (some t)

namespace Store

section
variable {ρ κ : Type*} [Schema ρ κ] {s s' : Store ρ} {t u : Nat} {row row' : ρ} {k : κ}

/-- The store without rows. -/
def empty : Store ρ := ⟨[], [], .nil, nofun, nofun, nofun⟩

/-- The row is committed. -/
def Committed (s : Store ρ) (row : ρ) : Prop := ⟨none, row⟩ ∈ s.entries

/-- The rows that a transaction has written and not committed. -/
def pending (s : Store ρ) (t : Nat) : List ρ :=
  (s.entries.filter fun e => e.owner = some t).map (·.row)

/-- The rows that a statement sees. -/
def visible (s : Store ρ) (o : Option Nat) : List ρ :=
  (s.entries.filter fun e => e.seenBy o).map (·.row)

theorem mem_pending : row ∈ s.pending t ↔ ⟨some t, row⟩ ∈ s.entries := by
  simp only [pending, mem_map, mem_filter, decide_eq_true_eq]
  constructor
  · rintro ⟨⟨o, r⟩, ⟨he, rfl⟩, rfl⟩
    exact he
  · exact fun h => ⟨_, ⟨h, rfl⟩, rfl⟩

theorem mem_visible {o : Option Nat} :
    row ∈ s.visible o ↔ ∃ e ∈ s.entries, e.seenBy o ∧ e.row = row := by
  simp only [visible, mem_map, mem_filter, decide_eq_true_eq, and_assoc]

theorem mem_visible_none : row ∈ s.visible none ↔ s.Committed row := by
  rw [mem_visible]
  constructor
  · rintro ⟨⟨o, r⟩, he, ho, rfl⟩
    obtain rfl : o = none := by rcases ho with h | h <;> exact h
    exact he
  · exact fun h => ⟨_, h, .inl rfl, rfl⟩

theorem mem_visible_some : row ∈ s.visible (some t) ↔ s.Committed row ∨ row ∈ s.pending t := by
  rw [mem_visible, mem_pending]
  constructor
  · rintro ⟨⟨o, r⟩, he, ho, rfl⟩
    rcases ho with rfl | rfl
    · exact .inl he
    · exact .inr he
  · rintro (h | h)
    · exact ⟨_, h, .inl rfl, rfl⟩
    · exact ⟨_, h, .inr rfl, rfl⟩

/-- What is committed with one more entry. -/
theorem committed_append {o : Option Nat} (h : s'.entries = s.entries ++ [⟨o, row⟩]) :
    s'.Committed row' ↔ s.Committed row' ∨ o = none ∧ row' = row := by
  rw [Committed, h, mem_append, mem_singleton, Entry.mk.injEq, eq_comm (a := none)]
  rfl

/-- Entries that share a key are one entry. -/
theorem eq_of_key {e f : Entry ρ} (he : e ∈ s.entries) (hf : f ∈ s.entries) (hke : k ∈ keys e.row)
    (hkf : k ∈ keys f.row) : e = f := by
  by_contra hne
  have hsymm : Std.Symm fun a b : Entry ρ => ¬ Clash a.row b.row := ⟨fun _ _ h hc => h hc.symm⟩
  exact s.distinct.forall he hf hne ⟨k, hke, hkf⟩

/-- Committed rows that share a key are one row. -/
theorem Committed.eq_of_key (h : s.Committed row) (h' : s.Committed row') (hk : k ∈ keys row)
    (hk' : k ∈ keys row') : row = row' :=
  congrArg Entry.row (Store.eq_of_key h h' hk hk')

/-- A row of a transaction shares no key with a committed one. -/
theorem Committed.key_not_mem (h : s.Committed row') (hr : row ∈ s.pending t) (hk : k ∈ keys row) :
    k ∉ keys row' := by
  intro hk'
  cases congrArg Entry.owner (Store.eq_of_key h (mem_pending.1 hr) hk' hk)

/-- What a committed row references is committed. -/
theorem Committed.refs (h : s.Committed row) (hk : k ∈ Schema.refs row) :
    ∃ row', s.Committed row' ∧ k ∈ keys row' := by
  obtain ⟨⟨o, r⟩, hf, hkr, ho⟩ := s.closed _ h k hk
  obtain rfl : o = none := by rcases ho with h | h <;> exact h
  exact ⟨r, hf, hkr⟩

end

/-! ## The end of a transaction -/

section
variable {ρ κ : Type*} [Schema ρ κ] {s : Store ρ} {t : Nat} {row : ρ}

/-- The end of a transaction without its rows: a rollback, or a connection that is lost. -/
def rollback (s : Store ρ) (t : Nat) : Store ρ where
  entries := s.entries.filter fun e => e.owner ≠ some t
  locks := s.locks.filter fun l => l.1 ≠ t
  distinct := s.distinct.sublist List.filter_sublist
  closed e he k hk := by
    simp only [List.mem_filter, decide_eq_true_eq] at he
    obtain ⟨f, hf, hkf, hs⟩ := s.closed e he.1 k hk
    refine ⟨f, List.mem_filter.2 ⟨hf, decide_eq_true ?_⟩, hkf, hs⟩
    rcases hs with hs | hs
    · rw [hs]; exact Option.some_ne_none t |>.symm
    · rw [hs]; exact he.2
  exclusive v u k hv hu :=
    s.exclusive v u k (List.mem_of_mem_filter hv) (List.mem_of_mem_filter hu)
  guarded u k hu e he hk :=
    s.guarded u k (List.mem_of_mem_filter hu) e (List.mem_of_mem_filter he) hk

theorem mem_rollback {e : Entry ρ} :
    e ∈ (s.rollback t).entries ↔ e ∈ s.entries ∧ e.owner ≠ some t := by
  simp only [rollback, mem_filter, decide_eq_true_eq]

theorem mem_rollback_locks {l : Nat × κ} : l ∈ (s.rollback t).locks ↔ l ∈ s.locks ∧ l.1 ≠ t := by
  simp only [rollback, mem_filter, decide_eq_true_eq]

/-- The rows of a transaction as committed ones, behind those of the others. -/
def commitEntries (s : Store ρ) (t : Nat) : List (Entry ρ) :=
  s.entries.filter (fun e => e.owner ≠ some t) ++ (s.pending t).map fun row => ⟨none, row⟩

theorem mem_commitEntries {e : Entry ρ} :
    e ∈ s.commitEntries t ↔
      (e ∈ s.entries ∧ e.owner ≠ some t) ∨ e.owner = none ∧ e.row ∈ s.pending t := by
  simp only [commitEntries, mem_append, mem_filter, mem_map, decide_eq_true_eq]
  refine or_congr_right ⟨?_, ?_⟩
  · rintro ⟨row, hr, rfl⟩
    exact ⟨rfl, hr⟩
  · rintro ⟨ho, hr⟩
    obtain ⟨o, r⟩ := e
    cases ho
    exact ⟨r, hr, rfl⟩

/-- A commit keeps rows apart. -/
theorem distinct_commitEntries (s : Store ρ) (t : Nat) :
    (s.commitEntries t).Pairwise fun a b => ¬ Clash a.row b.row := by
  have h : ((s.commitEntries t).map (·.row)).Perm (s.entries.map (·.row)) := by
    rw [commitEntries, map_append, map_map]
    have hid : (s.pending t).map ((·.row) ∘ fun row => (⟨none, row⟩ : Entry ρ)) = s.pending t :=
      map_id _
    rw [hid, pending, ← map_append]
    refine .map _ (perm_append_comm.trans ?_)
    simpa using filter_append_perm (fun e : Entry ρ => e.owner = some t) s.entries
  have hrows : (s.entries.map (·.row)).Pairwise fun a b => ¬ Clash a b :=
    pairwise_map.2 s.distinct
  exact pairwise_map.1 ((h.pairwise_iff fun hab hc => hab hc.symm).2 hrows)

/-- `COMMIT`. -/
def commit (s : Store ρ) (t : Nat) : Store ρ where
  entries := s.commitEntries t
  locks := s.locks.filter fun l => l.1 ≠ t
  distinct := s.distinct_commitEntries t
  closed e he k hk := by
    have hsrc : ∃ e' ∈ s.entries, e'.row = e.row ∧ (e'.owner = e.owner ∨ e'.owner = some t ∧
        e.owner = none) := by
      rcases mem_commitEntries.1 he with ⟨he, -⟩ | ⟨ho, hr⟩
      · exact ⟨e, he, rfl, .inl rfl⟩
      · exact ⟨_, mem_pending.1 hr, rfl, .inr ⟨rfl, ho⟩⟩
    obtain ⟨e', he', hrow, ho⟩ := hsrc
    obtain ⟨f, hf, hkf, hs⟩ := s.closed e' he' k (hrow ▸ hk)
    by_cases hft : f.owner = some t
    · refine ⟨⟨none, f.row⟩, mem_commitEntries.2 (.inr ⟨rfl, mem_pending.2 ?_⟩), hkf, .inl rfl⟩
      rw [← hft]; exact hf
    · refine ⟨f, mem_commitEntries.2 (.inl ⟨hf, hft⟩), hkf, ?_⟩
      rcases hs with hs | hs
      · exact .inl hs
      · rcases ho with ho | ⟨ho, -⟩
        · exact .inr (hs.trans ho)
        · exact absurd (hs.trans ho) hft
  exclusive v u k hv hu :=
    s.exclusive v u k (List.mem_of_mem_filter hv) (List.mem_of_mem_filter hu)
  guarded u k hu e he hk := by
    rcases mem_commitEntries.1 he with ⟨he, -⟩ | ⟨ho, -⟩
    · exact s.guarded u k (List.mem_of_mem_filter hu) e he hk
    · exact .inl ho

theorem mem_commit_locks {l : Nat × κ} : l ∈ (s.commit t).locks ↔ l ∈ s.locks ∧ l.1 ≠ t := by
  simp only [commit, mem_filter, decide_eq_true_eq]

theorem committed_commit : (s.commit t).Committed row ↔ s.Committed row ∨ row ∈ s.pending t := by
  refine mem_commitEntries.trans (or_congr ⟨fun h => h.1, fun h => ⟨h, nofun⟩⟩ ?_)
  exact ⟨fun h => h.2, fun h => ⟨rfl, h⟩⟩

theorem pending_commit : (s.commit t).pending t = [] := by
  refine eq_nil_iff_forall_not_mem.2 fun row hr => ?_
  rcases mem_commitEntries.1 (mem_pending.1 hr) with ⟨-, ho⟩ | ⟨ho, -⟩
  · exact ho rfl
  · cases ho

/-- What a transaction saw is committed. -/
theorem committed_commit_iff : (s.commit t).Committed row ↔ row ∈ s.visible (some t) :=
  committed_commit.trans mem_visible_some.symm

end

/-! ## Statements -/

section
variable {ρ κ : Type*} [Schema ρ κ] [DecidableEq κ] {s s' : Store ρ} {t : Nat} {row : ρ}
variable {o : Option Nat} {k : κ}

/-- What an insertion comes to. -/
inductive Inserted
  | inserted
  | conflict
  | uniqueViolation
  | foreignKeyViolation
deriving DecidableEq

/-- The row as a further entry. -/
def add (s : Store ρ) (o : Option Nat) (row : ρ)
    (hkey : ∀ e ∈ s.entries, ¬ Clash row e.row)
    (hlock : ∀ k ∈ refs row, ∀ u, (u, k) ∈ s.locks → o = some u)
    (href : ∀ k ∈ refs row, ∃ f ∈ s.entries, k ∈ keys f.row ∧ f.seenBy o) : Store ρ where
  entries := s.entries ++ [⟨o, row⟩]
  locks := s.locks
  distinct := by
    refine List.pairwise_append.2 ⟨s.distinct, List.pairwise_singleton _ _, fun e he f hf => ?_⟩
    obtain rfl := List.mem_singleton.1 hf
    exact fun hc => hkey e he hc.symm
  closed e he k hk := by
    rcases List.mem_append.1 he with he | he
    · obtain ⟨f, hf, h⟩ := s.closed e he k hk
      exact ⟨f, List.mem_append_left _ hf, h⟩
    · obtain rfl := List.mem_singleton.1 he
      obtain ⟨f, hf, h⟩ := href k hk
      exact ⟨f, List.mem_append_left _ hf, h⟩
  exclusive := s.exclusive
  guarded t k ht e he hk := by
    rcases List.mem_append.1 he with he | he
    · exact s.guarded t k ht e he hk
    · obtain rfl := List.mem_singleton.1 he
      exact .inr (hlock k hk t ht)

/-- `INSERT .. ON CONFLICT (arbiter) DO NOTHING` in the transaction `o`, or on its own. -/
def insert (s : Store ρ) (o : Option Nat) (arbiter : List κ) (row : ρ) :
    Option (Inserted × Store ρ) :=
  if ∃ e ∈ s.entries, e.seenBy o ∧ ∃ k ∈ arbiter, k ∈ keys e.row then some (.conflict, s)
  else if ∃ e ∈ s.entries, ¬ e.seenBy o ∧ Clash row e.row then none
  else if h : ∀ e ∈ s.entries, ¬ Clash row e.row then
    if hl : ∀ k ∈ refs row, ∀ l ∈ s.locks, l.2 = k → o = some l.1 then
      if hr : ∀ k ∈ refs row, ∃ f ∈ s.entries, k ∈ keys f.row ∧ f.seenBy o then
        some (.inserted, s.add o row h (fun k hk u hu => hl k hk (u, k) hu rfl) hr)
      else some (.foreignKeyViolation, s)
    else none
  else some (.uniqueViolation, s)

/-- What an insertion did: it added the row as an entry, or nothing, for a reason. -/
def Outcome (s : Store ρ) (o : Option Nat) (arbiter : List κ) (row : ρ) (s' : Store ρ) :
    Inserted → Prop
  | .inserted => s'.entries = s.entries ++ [⟨o, row⟩] ∧ s'.locks = s.locks ∧
      (∀ e ∈ s.entries, ¬ Clash row e.row) ∧
      ∀ k ∈ refs row, ∀ u, (u, k) ∈ s.locks → o = some u
  | .conflict => s' = s ∧ ∃ e ∈ s.entries, e.seenBy o ∧ ∃ k ∈ arbiter, k ∈ keys e.row
  | .uniqueViolation => s' = s ∧ ∃ e ∈ s.entries, e.seenBy o ∧
      (∀ k ∈ arbiter, k ∉ keys e.row) ∧ Clash row e.row
  | .foreignKeyViolation => s' = s ∧ ∃ k ∈ refs row, ∀ f ∈ s.entries, f.seenBy o → k ∉ keys f.row

variable {a : Inserted}

/-- Every insertion has such an outcome. -/
theorem insert_outcome {arbiter : List κ} (h : s.insert o arbiter row = some (a, s')) :
    s.Outcome o arbiter row s' a := by
  unfold insert at h
  split at h
  · next hc =>
    cases h
    exact ⟨rfl, hc⟩
  · next hc =>
    split at h
    · cases h
    · next hw =>
      split at h
      · next hk =>
        split at h
        · next hl =>
          split at h
          · cases h
            exact ⟨rfl, rfl, hk, fun k hk u hu => hl k hk (u, k) hu rfl⟩
          · next hr =>
            cases h
            simp only [not_forall] at hr
            obtain ⟨k, hk, hf⟩ := hr
            exact ⟨rfl, k, hk, fun f hf' hs hkf => hf ⟨f, hf', hkf, hs⟩⟩
        · cases h
      · next hk =>
        cases h
        simp only [not_forall, not_not] at hk
        obtain ⟨e, he, hce⟩ := hk
        have hseen : e.seenBy o := by
          by_contra hs
          exact hw ⟨e, he, hs, hce⟩
        exact ⟨rfl, e, he, hseen, fun k ha hke => hc ⟨e, he, hseen, k, ha, hke⟩, hce⟩

theorem insert_cases {arbiter : List κ} (h : s.insert o arbiter row = some (a, s')) :
    (s'.entries = s.entries ++ [⟨o, row⟩] ∧ s'.locks = s.locks ∧
      ∀ k ∈ refs row, ∀ u, (u, k) ∈ s.locks → o = some u) ∨ s' = s := by
  have ha := insert_outcome h
  cases a with
  | inserted => exact .inl ⟨ha.1, ha.2.1, ha.2.2.2⟩
  | _ => exact .inr ha.1

/-- What a transaction sees after it inserted a row with one key and no references. -/
theorem mem_visible_insert {row' : ρ} (hkeys : keys row = [k]) (hrefs : refs row = [])
    (h : s.insert o [k] row = some (a, s')) :
    row' ∈ s'.visible o ↔ row' ∈ s.visible o ∨ row' = row ∧ ∀ r ∈ s.visible o, k ∉ keys r := by
  have ha := insert_outcome h
  cases a with
  | inserted =>
    obtain ⟨he, -, hnew, -⟩ := ha
    have hfree : ∀ r ∈ s.visible o, k ∉ keys r := by
      intro r hr hk
      obtain ⟨e, hem, -, rfl⟩ := mem_visible.1 hr
      exact hnew e hem ⟨k, by simp [hkeys], hk⟩
    have hvis : s'.visible o = s.visible o ++ [row] := by
      simp [visible, he, Entry.seenBy]
    rw [hvis, mem_append, mem_singleton]
    exact or_congr_right ⟨fun hr => ⟨hr, hfree⟩, And.left⟩
  | conflict =>
    obtain ⟨rfl, e, he, hs, k', hk', hke⟩ := ha
    obtain rfl := mem_singleton.1 hk'
    exact ⟨.inl, fun h => h.resolve_right fun hr => hr.2 e.row (mem_visible.2 ⟨e, he, hs, rfl⟩) hke⟩
  | uniqueViolation =>
    obtain ⟨-, e, -, -, hne, k', hk', hke⟩ := ha
    exact absurd hke (hne k' (hkeys ▸ hk'))
  | foreignKeyViolation =>
    obtain ⟨-, k', hk', -⟩ := ha
    rw [hrefs] at hk'
    cases hk'

/-- So it sees a row with that key, the new one or one that was there. -/
theorem exists_visible_insert (hkeys : keys row = [k]) (hrefs : refs row = [])
    (h : s.insert o [k] row = some (a, s')) : ∃ row' ∈ s'.visible o, k ∈ keys row' := by
  by_cases hex : ∃ r ∈ s.visible o, k ∈ keys r
  · obtain ⟨r, hr, hk⟩ := hex
    exact ⟨r, (mem_visible_insert hkeys hrefs h).2 (.inl hr), hk⟩
  · refine ⟨row, (mem_visible_insert hkeys hrefs h).2 (.inr ⟨rfl, fun r hr hk => ?_⟩), ?_⟩
    · exact hex ⟨r, hr, hk⟩
    · rw [hkeys]
      exact .head _

/-- `SELECT .. FOR UPDATE` of the row with a key by `t`: whether there is one. It waits for the lock
of another transaction, and for another transaction's rows that reference the row. -/
def lock (s : Store ρ) (t : Nat) (k : κ) : Option (Bool × Store ρ) :=
  if ∃ e ∈ s.entries, e.seenBy (some t) ∧ k ∈ keys e.row then
    if h : (∀ l ∈ s.locks, l.2 = k → l.1 = t) ∧
        ∀ e ∈ s.entries, k ∈ refs e.row → e.seenBy (some t) then
      some (true, { s with
        locks := (t, k) :: s.locks
        exclusive := by
          intro u v j hu hv
          rcases List.mem_cons.1 hu with hu | hu <;> rcases List.mem_cons.1 hv with hv | hv
          · cases hu; cases hv; rfl
          · cases hu; exact (h.1 (v, k) hv rfl).symm
          · cases hv; exact h.1 (u, k) hu rfl
          · exact s.exclusive u v j hu hv
        guarded := by
          intro u j hu e he hj
          rcases List.mem_cons.1 hu with hu | hu
          · cases hu; exact h.2 e he hj
          · exact s.guarded u j hu e he hj })
    else none
  else some (false, s)

/-- There is the row and it is locked, or there is none. -/
theorem lock_cases {b : Bool} (h : s.lock t k = some (b, s')) :
    (b = true ∧ s'.entries = s.entries ∧ s'.locks = (t, k) :: s.locks) ∨
    (b = false ∧ s' = s ∧ ∀ e ∈ s.entries, e.seenBy (some t) → k ∉ keys e.row) := by
  unfold lock at h
  split at h
  · split at h
    · cases h
      exact .inl ⟨rfl, rfl, rfl⟩
    · cases h
  · next hno =>
    cases h
    exact .inr ⟨rfl, rfl, fun e he hs hk => hno ⟨e, he, hs, hk⟩⟩

theorem lock_entries {b : Bool} (h : s.lock t k = some (b, s')) : s'.entries = s.entries := by
  rcases lock_cases h with ⟨-, he, -⟩ | ⟨-, rfl, -⟩
  · exact he
  · rfl

/-- `DELETE .. WHERE p` of a statement of its own; refused for a row that is referenced. -/
def delete (s : Store ρ) (p : ρ → Bool) : Option (Store ρ) :=
  if h : ∀ f ∈ s.entries, f.owner = none → p f.row → ∀ e ∈ s.entries, ∀ k ∈ refs e.row,
      k ∉ keys f.row then
    some { s with
      entries := s.entries.filter fun e => ¬ (e.owner = none ∧ p e.row)
      distinct := s.distinct.sublist List.filter_sublist
      closed := by
        intro e he k hk
        have he := List.mem_of_mem_filter he
        obtain ⟨f, hf, hkf, hs⟩ := s.closed e he k hk
        refine ⟨f, List.mem_filter.2 ⟨hf, decide_eq_true ?_⟩, hkf, hs⟩
        rintro ⟨ho, hp⟩
        exact h f hf ho hp e he k hk hkf
      guarded := fun u k hu e he hk => s.guarded u k hu e (List.mem_of_mem_filter he) hk }
  else none

theorem delete_some {p : ρ → Bool} (h : s.delete p = some s') :
    (∀ e, e ∈ s'.entries ↔ e ∈ s.entries ∧ ¬ (e.owner = none ∧ p e.row)) ∧ s'.locks = s.locks := by
  unfold delete at h
  split at h
  · cases h
    refine ⟨fun e => ?_, rfl⟩
    simp only [mem_filter, decide_eq_true_eq]
  · cases h

end

end Store

/-! ## What the others do -/

section
variable {ρ κ : Type*} [Schema ρ κ] {stays : ρ → Prop} {t u : Nat} {s s' : Store ρ} {row : ρ}

/-- What happens to the store between two statements of thread `t`: its transaction is as it was,
the rows that stay are not deleted, and no row that references a row it has locked appears. -/
structure Others (stays : ρ → Prop) (t : Nat) (s s' : Store ρ) : Prop where
  pending : s'.pending t = s.pending t
  locks : ∀ k, (t, k) ∈ s'.locks ↔ (t, k) ∈ s.locks
  committed : ∀ row, stays row → s.Committed row → s'.Committed row
  locked : ∀ k, (t, k) ∈ s.locks → ∀ row, k ∈ refs row → s'.Committed row → s.Committed row

namespace Others

theorem refl (stays : ρ → Prop) (t : Nat) (s : Store ρ) : Others stays t s s :=
  ⟨rfl, fun _ => .rfl, fun _ _ h => h, fun _ _ _ _ h => h⟩

theorem trans {s'' : Store ρ} (h : Others stays t s s') (h' : Others stays t s' s'') :
    Others stays t s s'' where
  pending := h'.pending.trans h.pending
  locks k := (h'.locks k).trans (h.locks k)
  committed row hr hc := h'.committed row hr (h.committed row hr hc)
  locked k hk row hkr hc := h.locked k hk row hkr (h'.locked k ((h.locks k).2 hk) row hkr hc)

/-- What a transaction saw it sees. -/
theorem visible (h : Others stays t s s') (hr : stays row) (hv : row ∈ s.visible (some t)) :
    row ∈ s'.visible (some t) := by
  rw [Store.mem_visible_some] at hv ⊢
  exact hv.imp (h.committed row hr) fun hp => by rwa [h.pending]

theorem rollback (hu : u ≠ t) : Others stays t s (s.rollback u) where
  pending := by
    simp only [Store.pending, Store.rollback, filter_filter]
    refine congrArg _ (filter_congr fun e _ => ?_)
    by_cases h : e.owner = some t
    · simp [h, hu.symm]
    · simp [h]
  locks k := by
    rw [Store.mem_rollback_locks]
    exact ⟨fun h => h.1, fun h => ⟨h, hu.symm⟩⟩
  committed r _ hr := Store.mem_rollback.2 ⟨hr, nofun⟩
  locked _ _ r _ hr := (Store.mem_rollback.1 hr).1

/-- The commit of another transaction. -/
theorem commit (hu : u ≠ t) : Others stays t s (s.commit u) where
  pending := by
    have hown : ((s.pending u).map fun row => (⟨none, row⟩ : Entry ρ)).filter
        (fun e => e.owner = some t) = [] := by
      simp [filter_eq_nil_iff]
    simp only [Store.pending, Store.commit, Store.commitEntries, filter_append, filter_filter]
    rw [show (List.map (fun row => (⟨none, row⟩ : Entry ρ)) (List.map (·.row)
      (.filter (fun e => e.owner = some u) s.entries))).filter (fun e => e.owner = some t) = []
      from hown, append_nil]
    refine congrArg _ (filter_congr fun e _ => ?_)
    by_cases h : e.owner = some t
    · simp [h, hu.symm]
    · simp [h]
  locks k := by
    rw [Store.mem_commit_locks]
    exact ⟨fun h => h.1, fun h => ⟨h, hu.symm⟩⟩
  committed r _ hr := Store.committed_commit.2 (.inl hr)
  locked k hk r hkr hr := by
    rcases Store.committed_commit.1 hr with hr | hr
    · exact hr
    · -- a pending row that references a locked row is the holder's
      rcases s.guarded t k hk _ (Store.mem_pending.1 hr) hkr with h | h
      · cases h
      · cases h
        exact absurd rfl hu

section
variable [DecidableEq κ]

theorem insert {o : Option Nat} {arbiter : List κ} {a : Store.Inserted} (ho : o ≠ some t)
    (h : s.insert o arbiter row = some (a, s')) : Others stays t s s' := by
  rcases Store.insert_cases h with ⟨he, hl, hlock⟩ | rfl
  · refine ⟨?_, fun k => by rw [hl], fun r _ hr => ?_, fun k hk r hkr hr => ?_⟩
    · simp [Store.pending, he, filter_append, ho]
    · exact (Store.committed_append he).2 (.inl hr)
    · rcases (Store.committed_append he).1 hr with hr | ⟨rfl, rfl⟩
      · exact hr
      · exact absurd (hlock k hkr t hk) ho
  · exact refl _ _ _

theorem lock {k : κ} {b : Bool} (hu : u ≠ t) (h : s.lock u k = some (b, s')) :
    Others stays t s s' := by
  rcases Store.lock_cases h with ⟨-, he, hl⟩ | ⟨-, rfl, -⟩
  · refine ⟨by simp only [Store.pending, he], fun j => ?_, fun r _ hr => ?_, fun _ _ r _ hr => ?_⟩
    · rw [hl, mem_cons, Prod.mk.injEq]
      exact ⟨fun h => h.resolve_left fun h => hu h.1.symm, .inr⟩
    · rwa [Store.Committed, he]
    · rwa [Store.Committed, he] at hr
  · exact refl _ _ _

/-- A deletion of rows that may go. -/
theorem delete {p : ρ → Bool} (hp : ∀ row, stays row → s.Committed row → p row = false)
    (h : s.delete p = some s') : Others stays t s s' := by
  obtain ⟨he, hl⟩ := Store.delete_some h
  refine ⟨?_, fun k => by rw [hl], fun r hr hc => ?_, fun _ _ r _ hr => ?_⟩
  · unfold Store.delete at h
    split at h
    · cases h
      simp only [Store.pending, filter_filter]
      refine congrArg _ (filter_congr fun e _ => ?_)
      by_cases h : e.owner = some t
      · simp [h]
      · simp [h]
    · cases h
  · exact (he _).2 ⟨hc, fun h => by simp [hp r hr hc] at h⟩
  · exact ((he _).1 hr).1

end

end Others

end

end Tx
