import Mathlib.Data.Int.ConditionallyCompleteOrder
import Mathlib.Order.ConditionallyCompleteLattice.Basic
import Messgr.Quota.Configure

/-!
# Overrides

An override is to raise the limit of a key by the day for a time. `refresh_config` folds the active
ones over the limit of the row, and a row without a limit, which is unlimited, takes that of the
first override: the override lowers it (`override_lowers`). `overrides_raise`: the limit of a key is
the greatest of all, in whatever order the overrides come, just if its row has a limit or it has no
override.
-/

namespace Messgr.Quota

open List

/-- A limit by the day as a bound: no limit is above all. -/
def dayLimit : Option Int → WithTop Int
  | none => ⊤
  | some limit => limit

/-- The limits that a row and the overrides of its key set. -/
def dayLimits (q : ProducerQuota) (overrides : List ProducerQuotaOverride) : Set (WithTop Int) :=
  {x | x = dayLimit q.perDay ∨ ∃ o ∈ overrides, o.key = q.key ∧ x = (o.perDay : WithTop Int)}

/-- The condition: the row of the key has a limit by the day, or no override is for the key. -/
def overridesCapped (quotas : Table ProducerQuota ProducerQuota.key)
    (overrides : List ProducerQuotaOverride) (key : Key) : Bool :=
  (quotas.find? key).all fun q => q.perDay.isSome || overrides.all (·.key ≠ key)

section
variable {overrides overrides' : List ProducerQuotaOverride} {key : Key}

/-- The overrides of other keys do not matter. -/
theorem raise_of_ne {perDay : Option Int} (h : ∀ o ∈ overrides, o.key ≠ key) :
    raise overrides key perDay = perDay := by
  unfold raise
  induction overrides with
  | nil => rfl
  | cons o os ih =>
    rw [foldl_cons, if_neg (h o (.head _))]
    exact ih fun o' ho' => h o' (.tail _ ho')

/-- The overrides of a key raise a limit to the greatest of all. -/
theorem raise_some (base : Int) :
    ∃ limit, raise overrides key (some base) = some limit ∧
      (limit = base ∨ ∃ o ∈ overrides, o.key = key ∧ limit = o.perDay) ∧
      base ≤ limit ∧ ∀ o ∈ overrides, o.key = key → o.perDay ≤ limit := by
  induction overrides generalizing base with
  | nil => exact ⟨base, rfl, .inl rfl, le_rfl, fun o ho => absurd ho not_mem_nil⟩
  | cons o os ih =>
    by_cases hk : o.key = key
    · obtain ⟨limit, hraise, hmem, hbase, hall⟩ := ih (max base o.perDay)
      refine ⟨limit, ?_, ?_, (le_max_left _ _).trans hbase, forall_mem_cons.2 ⟨fun _ => ?_, hall⟩⟩
      · rw [← hraise, raise, foldl_cons, if_pos hk]
        rfl
      · rcases hmem with rfl | ⟨o', ho', hk', rfl⟩
        · rcases max_choice base o.perDay with h | h
          · exact .inl h
          · exact .inr ⟨o, .head _, hk, h⟩
        · exact .inr ⟨o', .tail _ ho', hk', rfl⟩
      · exact (le_max_right _ _).trans hbase
    · obtain ⟨limit, hraise, hmem, hbase, hall⟩ := ih base
      refine ⟨limit, ?_, ?_, hbase, forall_mem_cons.2 ⟨fun h => absurd h hk, hall⟩⟩
      · rw [← hraise, raise, foldl_cons, if_neg hk]
        rfl
      · exact hmem.imp_right fun ⟨o', ho', h⟩ => ⟨o', .tail _ ho', h⟩

/-- An override of the key sets a limit. -/
theorem ne_of_raise_eq_none {perDay : Option Int} (h : raise overrides key perDay = none) :
    ∀ o ∈ overrides, o.key ≠ key := by
  induction overrides generalizing perDay with
  | nil => nofun
  | cons o os ih =>
    rw [raise, foldl_cons] at h
    split at h
    · obtain ⟨limit, hraise, -⟩ := @raise_some os key ((perDay.map (max · o.perDay)).getD o.perDay)
      cases perDay <;> cases hraise.symm.trans h
    · next hne => exact forall_mem_cons.2 ⟨hne, ih h⟩

/-- The order of the overrides does not matter. -/
theorem raise_perm (h : overrides.Perm overrides') (perDay : Option Int) :
    raise overrides key perDay = raise overrides' key perDay := by
  refine h.foldl_eq' (fun o _ o' _ base => ?_) perDay
  by_cases hk : o.key = key <;> by_cases hk' : o'.key = key <;>
    simp only [hk, hk', if_true, if_false]
  cases base with
  | none => exact congrArg some (max_comm _ _)
  | some b => exact congrArg some (max_right_comm _ _ _)

end

/-- A row's limit is raised to the greatest limit, just if it has one or no override sets one. -/
theorem isGreatest_raise_iff (q : ProducerQuota) (overrides : List ProducerQuotaOverride) :
    IsGreatest (dayLimits q overrides) (dayLimit (raise overrides q.key q.perDay)) ↔
      (q.perDay.isSome || overrides.all (·.key ≠ q.key)) = true := by
  rw [Bool.or_eq_true]
  cases hbase : q.perDay with
  | some base =>
    refine iff_of_true ?_ (.inl rfl)
    obtain ⟨limit, hraise, hmem, hle, hall⟩ := @raise_some overrides q.key base
    rw [hraise]
    refine ⟨?_, fun x hx => ?_⟩
    · rcases hmem with rfl | ⟨o, ho, hk, rfl⟩
      · exact .inl (by rw [hbase])
      · exact .inr ⟨o, ho, hk, rfl⟩
    · rcases hx with rfl | ⟨o, ho, hk, rfl⟩
      · rw [hbase]
        exact WithTop.coe_le_coe.2 hle
      · exact WithTop.coe_le_coe.2 (hall o ho hk)
  | none =>
    constructor
    · intro h
      -- no limit is the greatest, so that the fold has to keep it
      have htop := h.2 (.inl rfl)
      rw [hbase] at htop
      cases hraise : raise overrides q.key none with
      | some limit =>
        rw [hraise] at htop
        exact absurd (top_le_iff.1 htop) (WithTop.coe_ne_top)
      | none =>
        exact .inr (all_eq_true.2 fun o ho => decide_eq_true (ne_of_raise_eq_none hraise o ho))
    · intro h
      have hne : ∀ o ∈ overrides, o.key ≠ q.key := fun o ho =>
        of_decide_eq_true (all_eq_true.1 (h.resolve_left nofun) o ho)
      rw [raise_of_ne hne]
      exact ⟨.inl (by rw [hbase]), fun x _ => le_top⟩

/-- Overrides only raise limits, just for the keys whose row has a limit by the day or that have no
override: the configuration of a key is that of its row, with the greatest of the limits by the day,
in whatever order, and there is none without a row. -/
theorem overrides_raise (quotas : Table ProducerQuota ProducerQuota.key)
    (overrides : List ProducerQuotaOverride) (key : Key) :
    ((quotas.find? key = none → merged quotas overrides key = none) ∧
      (∀ q, quotas.find? key = some q → ∃ e, merged quotas overrides key = some e ∧
        e.perMinute = q.perMinute ∧ e.enforcement = q.enforcement ∧
        IsGreatest (dayLimits q overrides) (dayLimit e.perDay)) ∧
      ∀ overrides', overrides'.Perm overrides →
        merged quotas overrides' key = merged quotas overrides key) ↔
    overridesCapped quotas overrides key = true := by
  have horder : ∀ overrides', overrides'.Perm overrides →
      merged quotas overrides' key = merged quotas overrides key := fun overrides' hperm =>
    congrArg (Option.map · _) (funext fun q => by rw [raise_perm hperm])
  cases hq : quotas.find? key with
  | none => simp [overridesCapped, hq, merged]
  | some q =>
    obtain ⟨-, rfl⟩ := Table.find?_some hq
    have hm : merged quotas overrides q.key =
        some ⟨q.perMinute, raise overrides q.key q.perDay, q.enforcement⟩ := by
      rw [merged, hq]
      rfl
    rw [overridesCapped, hq, Option.all_some, ← isGreatest_raise_iff]
    constructor
    · rintro ⟨-, hrow, -⟩
      obtain ⟨e, he, -, -, hgreatest⟩ := hrow q rfl
      cases hm.symm.trans he
      exact hgreatest
    · intro hgreatest
      refine ⟨fun h => absurd h (Option.some_ne_none q), fun q' hq' => ?_, horder⟩
      cases hq'
      exact ⟨_, hm, rfl, rfl, hgreatest⟩

/-- A key whose row has the limit of three a day, with overrides of two and of five. -/
def ProducerQuota.sample (perDay : Option Int) : ProducerQuota :=
  ⟨⟨1⟩, "sms", "marketing", some 1, perDay, hard⟩

def ProducerQuotaOverride.sample (id : Uuid) (perDay : Int) : ProducerQuotaOverride :=
  ⟨id, ⟨1⟩, "sms", "marketing", perDay, 0, day, "admin", "launch"⟩

theorem overrides_raise_three :
    overridesCapped ((∅ : Table ProducerQuota ProducerQuota.key).upsert (.sample (some 3)))
      [.sample ⟨1⟩ 2, .sample ⟨2⟩ 5] ⟨⟨1⟩, "sms", "marketing"⟩ = true ∧
    ∃ e, merged ((∅ : Table ProducerQuota ProducerQuota.key).upsert (.sample (some 3)))
        [.sample ⟨1⟩ 2, .sample ⟨2⟩ 5] ⟨⟨1⟩, "sms", "marketing"⟩ = some e ∧
      e.perMinute = some 1 ∧ e.enforcement = hard ∧
      IsGreatest (dayLimits (.sample (some 3)) [.sample ⟨1⟩ 2, .sample ⟨2⟩ 5])
        (dayLimit e.perDay) :=
  have h : overridesCapped ((∅ : Table ProducerQuota ProducerQuota.key).upsert (.sample (some 3)))
      [.sample ⟨1⟩ 2, .sample ⟨2⟩ 5] ⟨⟨1⟩, "sms", "marketing"⟩ = true := by decide
  ⟨h, ((overrides_raise _ _ _).2 h).2.1 _ rfl⟩

/-- Without the condition an override lowers the limit: a row without one gets that of the
override. -/
theorem override_lowers :
    ∃ e, merged ((∅ : Table ProducerQuota ProducerQuota.key).upsert (.sample none))
        [.sample ⟨1⟩ 5] ⟨⟨1⟩, "sms", "marketing"⟩ = some e ∧ e.perDay = some 5 ∧
      ¬ IsGreatest (dayLimits (.sample none) [.sample ⟨1⟩ 5]) (dayLimit e.perDay) :=
  ⟨_, rfl, rfl, fun h => absurd (h.2 (.inl rfl)) (by decide)⟩

end Messgr.Quota
