import Mathlib.Data.List.Nodup
import Mathlib.Data.List.Perm.Subperm

/-!
# Keyed tables

A table of rows with a primary key: a list of rows whose keys are distinct, so that a table with a
duplicate key cannot be built. The operations are those of a database and of a map: `insert?`
refuses a key that is there, `update` changes the rows a condition selects and keeps their keys,
`delete` removes the rows a condition selects, `upsert` and `ofList` let a later row replace an
earlier one of the same key.
-/

/-- Rows with distinct keys. -/
structure Table (α : Type*) {κ : Type*} (key : α → κ) where
  rows : List α
  nodup : (rows.map key).Nodup

namespace Table

open List

variable {α κ : Type*} {key : α → κ} {t : Table α key} {p : α → Bool} {f : α → α}
variable {hf : ∀ a, key (f a) = key a}

instance : Membership α (Table α key) := ⟨fun t a => a ∈ t.rows⟩

theorem mem_def {a : α} : a ∈ t ↔ a ∈ t.rows := .rfl

/-- Two rows of a table with the same key are the same row. -/
theorem eq_of_key {a b : α} (ha : a ∈ t) (hb : b ∈ t) (h : key a = key b) : a = b :=
  inj_on_of_nodup_map t.nodup ha hb h

/-- A table is its rows. -/
theorem ext_rows {t' : Table α key} (h : t.rows = t'.rows) : t = t' := by
  cases t
  cases t'
  cases h
  rfl

/-- The table without rows. -/
def empty : Table α key := ⟨[], .nil⟩

instance : EmptyCollection (Table α key) := ⟨empty⟩

@[simp] theorem rows_empty : (∅ : Table α key).rows = [] := rfl

@[simp] theorem not_mem_empty (a : α) : a ∉ (∅ : Table α key) := not_mem_nil

/-! ## Updates and deletions -/

/-- The rows of `l` with `f` applied to those that `p` selects. -/
def updateRows (p : α → Bool) (f : α → α) (l : List α) : List α :=
  l.map fun a => if p a then f a else a

theorem map_key_updateRows (hf : ∀ a, key (f a) = key a) (l : List α) :
    (updateRows p f l).map key = l.map key := by
  rw [updateRows, map_map]
  refine map_congr_left fun a _ => ?_
  simp only [Function.comp]
  split
  · exact hf a
  · rfl

/-- `UPDATE .. SET f WHERE p`, for an `f` that keeps the key. -/
def update (t : Table α key) (p : α → Bool) (f : α → α) (hf : ∀ a, key (f a) = key a) :
    Table α key :=
  ⟨updateRows p f t.rows, by rw [map_key_updateRows hf]; exact t.nodup⟩

/-- A row after an update is one not selected, or a selected one, changed. -/
theorem mem_update (hf : ∀ a, key (f a) = key a) {b : α} :
    b ∈ t.update p f hf ↔ (b ∈ t ∧ p b = false) ∨ ∃ a ∈ t, p a = true ∧ b = f a := by
  show b ∈ t.rows.map _ ↔ _
  rw [mem_map]
  constructor
  · rintro ⟨a, ha, rfl⟩
    cases hp : p a with
    | false => exact .inl (by simpa [hp, mem_def] using ha)
    | true => exact .inr ⟨a, ha, hp, rfl⟩
  · rintro (⟨hb, hp⟩ | ⟨a, ha, hp, rfl⟩)
    · exact ⟨b, hb, by simp [hp]⟩
    · exact ⟨a, ha, by simp [hp]⟩

/-- An update that selects nothing changes nothing. -/
theorem update_of_not (h : ∀ a ∈ t, p a = false) : t.update p f hf = t := by
  obtain ⟨rows, hn⟩ := t
  simp only [update, updateRows, mk.injEq]
  refine (map_congr_left fun a ha => ?_).trans rows.map_id
  rw [h a ha]
  rfl

/-- `DELETE .. WHERE p`. -/
def delete (t : Table α key) (p : α → Bool) : Table α key :=
  ⟨t.rows.filter fun a => !p a, t.nodup.sublist (List.filter_sublist.map key)⟩

@[simp] theorem mem_delete {t : Table α key} {p : α → Bool} {a : α} :
    a ∈ t.delete p ↔ a ∈ t ∧ p a = false := by
  show a ∈ t.rows.filter _ ↔ _
  rw [mem_filter, Bool.not_eq_true']
  rfl

/-- A deletion that selects nothing changes nothing. -/
theorem delete_of_not (h : ∀ a ∈ t, p a = false) : t.delete p = t :=
  ext_rows (filter_eq_self.2 fun a ha => by rw [h a ha]; rfl)

/-- An update of rows that are then deleted. -/
theorem delete_update {q : α → Bool} (hpq : ∀ a, p a = true → q a = true ∧ q (f a) = true) :
    (t.update p f hf).delete q = t.delete q := by
  refine ext_rows ?_
  show (updateRows p f t.rows).filter _ = t.rows.filter _
  induction t.rows with
  | nil => rfl
  | cons a l ih =>
    simp only [updateRows, map_cons] at ih ⊢
    cases hp : p a with
    | false => simp [filter_cons, ih]
    | true => simp [ih, hpq a hp]

/-- A table of other rows under the same keys. -/
def map {β : Type*} {key' : β → κ} (t : Table α key) (f : α → β) (hf : ∀ a, key' (f a) = key a) :
    Table β key' :=
  ⟨t.rows.map f, by
    rw [List.map_map, show key' ∘ f = key from funext hf]
    exact t.nodup⟩

@[simp] theorem mem_map {β : Type*} {key' : β → κ} {t : Table α key} {f : α → β}
    {hf : ∀ a, key' (f a) = key a} {b : β} : b ∈ t.map f hf ↔ ∃ a ∈ t, b = f a := by
  show b ∈ t.rows.map f ↔ _
  rw [List.mem_map]
  simp only [eq_comm (a := b), mem_def]

/-! ## Counting -/

/-- Rows of one table and all of another, found in a third under their keys, are no more than the
rows found. -/
theorem countP_add_length_le {t' u : Table α key} {q : α → Bool}
    (hp : ∀ a ∈ t', p a = true → (∀ b ∈ u, key b ≠ key a) ∧ ∃ b ∈ t, q b = true ∧ key b = key a)
    (hu : ∀ a ∈ u, ∃ b ∈ t, q b = true ∧ key b = key a) :
    t'.rows.countP p + u.rows.length ≤ t.rows.countP q := by
  have hnodup : ((t'.rows.filter p).map key ++ u.rows.map key).Nodup := by
    refine nodup_append.2 ⟨t'.nodup.sublist (filter_sublist.map key), u.nodup, ?_⟩
    intro k hk k' hk' heq
    obtain ⟨a, ha, rfl⟩ := List.mem_map.1 hk
    obtain ⟨b, hb, rfl⟩ := List.mem_map.1 hk'
    obtain ⟨ha, hpa⟩ := mem_filter.1 ha
    exact (hp a ha hpa).1 b hb heq.symm
  have hsub : (t'.rows.filter p).map key ++ u.rows.map key ⊆ (t.rows.filter q).map key := by
    intro k hk
    have hfound : ∃ b ∈ t, q b = true ∧ key b = k := by
      rcases mem_append.1 hk with hk | hk
      · obtain ⟨a, ha, rfl⟩ := List.mem_map.1 hk
        obtain ⟨ha, hpa⟩ := mem_filter.1 ha
        exact (hp a ha hpa).2
      · obtain ⟨a, ha, rfl⟩ := List.mem_map.1 hk
        exact hu a ha
    obtain ⟨b, hb, hq, rfl⟩ := hfound
    exact mem_map_of_mem (mem_filter.2 ⟨hb, hq⟩)
  have hlen := (Nodup.subperm hnodup hsub).length_le
  simpa [countP_eq_length_filter] using hlen

/-! ## Insertions -/

section
variable [DecidableEq κ]
variable {t : Table α key} {a b : α} {l : List α}

/-- The row with key `k`. -/
def find? (t : Table α key) (k : κ) : Option α := t.rows.find? fun a => key a = k

theorem find?_some {k : κ} (h : t.find? k = some a) : a ∈ t ∧ key a = k :=
  ⟨mem_of_find?_eq_some h, by simpa using List.find?_some h⟩

theorem find?_none {k : κ} (h : t.find? k = none) (ha : a ∈ t) : key a ≠ k := by
  simpa using find?_eq_none.1 h a ha

/-- A row is what its key finds. -/
theorem find?_of_mem (ha : a ∈ t) : t.find? (key a) = some a := by
  cases h : t.find? (key a) with
  | none => exact absurd rfl (find?_none h ha)
  | some b =>
    obtain ⟨hb, hk⟩ := find?_some h
    rw [eq_of_key hb ha hk]

/-- What a key finds after an update is what it found before, updated. -/
theorem find?_update (hf : ∀ a, key (f a) = key a) (k : κ) :
    (t.update p f hf).find? k = (t.find? k).map fun a => if p a then f a else a := by
  show (t.rows.map _).find? _ = _
  rw [find?_map, find?]
  have hkey : (fun a => decide (key a = k)) ∘ (fun a => if p a then f a else a) =
      fun a => decide (key a = k) := by
    funext a
    simp only [Function.comp]
    split
    · rw [hf]
    · rfl
  rw [hkey]

/-- The rows with the given keys, in the order of the keys. -/
def select (t : Table α key) (ks : List κ) (h : ks.Nodup) : Table α key :=
  ⟨ks.filterMap t.find?, by
    refine h.sublist ?_
    clear h
    induction ks with
    | nil => exact .slnil
    | cons k ks ih =>
      cases hf : t.find? k with
      | none => rw [List.filterMap_cons_none hf]; exact ih.cons k
      | some a =>
        rw [List.filterMap_cons_some hf, List.map_cons, (find?_some hf).2]
        exact ih.cons_cons k⟩

theorem mem_select {ks : List κ} {h : ks.Nodup} : a ∈ t.select ks h ↔ a ∈ t ∧ key a ∈ ks := by
  show a ∈ ks.filterMap t.find? ↔ _
  rw [mem_filterMap]
  constructor
  · rintro ⟨k, hk, hf⟩
    obtain ⟨ha, rfl⟩ := find?_some hf
    exact ⟨ha, hk⟩
  · rintro ⟨ha, hk⟩
    exact ⟨key a, hk, find?_of_mem ha⟩

/-- `INSERT`: refused when the key is there. -/
def insert? (t : Table α key) (a : α) : Option (Table α key) :=
  if h : key a ∈ t.rows.map key then none
  else some ⟨t.rows ++ [a], by
    rw [List.map_append]
    exact t.nodup.append (List.nodup_singleton _) (by simpa using h)⟩

theorem insert?_some {t' : Table α key} (h : t.insert? a = some t') :
    (∀ b ∈ t, key b ≠ key a) ∧ ∀ b, b ∈ t' ↔ b ∈ t ∨ b = a := by
  unfold insert? at h
  split at h
  · cases h
  · next hk =>
    cases h
    refine ⟨fun b hb hbk => hk (hbk ▸ mem_map_of_mem hb), fun b => ?_⟩
    show b ∈ t.rows ++ [a] ↔ _
    rw [mem_append, mem_singleton]
    rfl

/-- An insertion is refused for a row with the key only. -/
theorem insert?_none (h : t.insert? a = none) : ∃ b ∈ t, key b = key a := by
  unfold insert? at h
  split at h
  · next hk => exact List.mem_map.1 hk
  · cases h

/-- The rows after an insertion that a row with the same key prevents. -/
theorem mem_insert?_getD : b ∈ (t.insert? a).getD t ↔ b ∈ t ∨ b = a ∧ ∀ c ∈ t, key c ≠ key a := by
  cases h : t.insert? a with
  | none =>
    obtain ⟨c, hc, hk⟩ := insert?_none h
    exact ⟨.inl, fun hb => hb.resolve_right fun hn => hn.2 c hc hk⟩
  | some t' =>
    obtain ⟨hfree, hmem⟩ := insert?_some h
    exact (hmem b).trans (or_congr_right ⟨fun hb => ⟨hb, hfree⟩, And.left⟩)

/-- A row with a key of its own is inserted. -/
theorem exists_insert? (h : ∀ b ∈ t, key b ≠ key a) :
    ∃ t', t.insert? a = some t' ∧ ∀ b, b ∈ t' ↔ b ∈ t ∨ b = a := by
  cases hi : t.insert? a with
  | none =>
    obtain ⟨b, hb, hk⟩ := insert?_none hi
    exact absurd hk (h b hb)
  | some t' => exact ⟨t', rfl, (insert?_some hi).2⟩

/-- Puts a row in, in the place of the one with its key. -/
def upsert (t : Table α key) (a : α) : Table α key :=
  ⟨t.rows.filter (fun b => key b ≠ key a) ++ [a], by
    rw [List.map_append]
    refine (t.nodup.sublist (List.filter_sublist.map key)).append (List.nodup_singleton _) ?_
    intro k hk hka
    obtain ⟨b, hb, rfl⟩ := List.mem_map.1 hk
    rw [List.map_singleton, List.mem_singleton] at hka
    simpa [hka] using (List.mem_filter.1 hb).2⟩

theorem mem_upsert : b ∈ t.upsert a ↔ b = a ∨ b ∈ t ∧ key b ≠ key a := by
  show b ∈ t.rows.filter _ ++ [a] ↔ _
  rw [mem_append, mem_filter, mem_singleton, decide_eq_true_eq, or_comm]
  rfl

/-- Collects a list of rows, a later one replacing an earlier one of the same key. -/
def ofList (l : List α) : Table α key := l.foldl upsert ∅

/-- What is collected after `t` is in the list, or a row of `t` whose key is not in it. -/
theorem mem_foldl_upsert : ∀ {t : Table α key} {b : α},
    b ∈ l.foldl upsert t → b ∈ l ∨ b ∈ t ∧ ∀ a ∈ l, key a ≠ key b := by
  induction l with
  | nil => exact fun h => .inr ⟨h, nofun⟩
  | cons a l ih =>
    intro t b h
    rcases ih h with h | ⟨h, hl⟩
    · exact .inl (.tail _ h)
    · rcases mem_upsert.1 h with rfl | ⟨h, ha⟩
      · exact .inl (.head _)
      · exact .inr ⟨h, forall_mem_cons.2 ⟨.symm ha, hl⟩⟩

/-- What is collected was in the list. -/
theorem mem_of_mem_ofList (h : b ∈ (ofList l : Table α key)) : b ∈ l :=
  (mem_foldl_upsert h).resolve_right fun h => not_mem_empty b h.1

/-- A key that the second of two lists has is collected from there. -/
theorem mem_right_of_mem_ofList_append {l1 l2 : List α} (hb : b ∈ (ofList (l1 ++ l2) : Table α key))
    (ha : a ∈ l2) (hk : key a = key b) : b ∈ l2 := by
  rw [ofList, foldl_append] at hb
  exact (mem_foldl_upsert hb).resolve_right fun h => h.2 a ha hk

theorem exists_key_foldl_upsert : ∀ {t : Table α key} {k : κ},
    (∃ a ∈ t, key a = k) ∨ (∃ a ∈ l, key a = k) → ∃ b ∈ l.foldl upsert t, key b = k := by
  induction l with
  | nil => exact fun h => h.resolve_right (by simp)
  | cons a l ih =>
    intro t k h
    refine ih ?_
    by_cases hk : key a = k
    · exact .inl ⟨a, mem_upsert.2 (.inl rfl), hk⟩
    rcases h with ⟨b, hb, hbk⟩ | ⟨b, hb, hbk⟩
    · exact .inl ⟨b, mem_upsert.2 (.inr ⟨hb, hbk.trans_ne (.symm hk)⟩), hbk⟩
    · rcases mem_cons.1 hb with rfl | hb
      · exact absurd hbk hk
      · exact .inr ⟨b, hb, hbk⟩

/-- Rows with distinct keys, written one by one, are there, with the rows from before that have
other keys. -/
theorem mem_foldl_upsert_iff (hl : ∀ a ∈ l, ∀ b ∈ l, key a = key b → a = b) :
    b ∈ l.foldl upsert t ↔ b ∈ l ∨ (b ∈ t ∧ ∀ a ∈ l, key a ≠ key b) := by
  refine ⟨mem_foldl_upsert, ?_⟩
  rintro (hb | ⟨hb, hne⟩)
  · obtain ⟨c, hc, hk⟩ := exists_key_foldl_upsert (t := t) (.inr ⟨b, hb, rfl⟩)
    rcases mem_foldl_upsert hc with hcl | ⟨_, hnone⟩
    · rwa [← hl c hcl b hb hk]
    · exact absurd hk.symm (hnone b hb)
  · obtain ⟨c, hc, hk⟩ := exists_key_foldl_upsert (l := l) (.inl ⟨b, hb, rfl⟩)
    rcases mem_foldl_upsert hc with hcl | ⟨hct, _⟩
    · exact absurd hk (hne c hcl)
    · rwa [← eq_of_key hct hb hk]

/-- Every key of the list is collected. -/
theorem exists_key_ofList (key : α → κ) (ha : a ∈ l) :
    ∃ b ∈ (ofList l : Table α key), key b = key a :=
  exists_key_foldl_upsert (.inr ⟨a, ha, rfl⟩)

/-- A list with distinct keys is collected as it is. -/
theorem mem_ofList (hl : (l.map key).Nodup) : b ∈ (ofList l : Table α key) ↔ b ∈ l := by
  refine ⟨mem_of_mem_ofList, fun hb => ?_⟩
  obtain ⟨c, hc, hk⟩ := exists_key_ofList key hb
  rwa [← inj_on_of_nodup_map hl (mem_of_mem_ofList hc) hb hk]

end

end Table
