import Mathlib.Algebra.Group.Nat.Defs
import Mathlib.Data.List.Basic
import Messgr.Base

/-!
# The names of the partitions

`src/partition_lifecycle/repo.rs`: the partition of a month is named after its table and its month,
and the lifecycle finds the month of a partition by parsing its name. The two are inverse to each
other on the years of four digits (`partition_names_parse_back`): a numeral that is filled up to a
width is determined by its value (`padded_ofDigitChars`).
-/

namespace Messgr.Partition

open List Option Nat

/-! ## Months

A `NaiveDate` that is the first of a month is the number of months since the year 0. -/

def year (month : Int) : Int := month / 12

def monthOfYear (month : Int) : Nat := (month % 12).toNat + 1

/-! ## Names -/

/-- Digits filled up with zeros to a width. -/
def padded (width n : Nat) : List Char :=
  List.replicate (width - (Nat.toDigits 10 n).length) '0' ++ Nat.toDigits 10 n

/-- The format `:04` of a year. -/
def formatYear (year : Int) : List Char :=
  if year < 0 then '-' :: padded 3 year.natAbs else padded 4 year.toNat

/-- `NaiveDate::from_ymd_opt` of the first of a month in a year of four digits. -/
def fromYmd (year month : Nat) : Option Int :=
  if 1 ≤ month ∧ month ≤ 12 then some (year * 12 + (month - 1)) else none

namespace Repo

/-- Source: `repo.rs`. -/
def partitionName (parentTable : String) (monthStart : Int) : String :=
  String.ofList (parentTable.toList ++ '_' :: (formatYear (year monthStart) ++
    '_' :: padded 2 (monthOfYear monthStart)))

/-- Source: `repo.rs`. -/
def parsePartitionMonth (parentTable relname : String) : Option Int :=
  (relname.toList.dropPrefix? (parentTable.toList ++ ['_'])).bind fun suffix =>
    (splitOnceChars '_' suffix).bind fun p =>
      if p.1.length ≠ 4 ∨ p.2.length ≠ 2 then none
      else if p.1.all Char.isDigit && p.2.all Char.isDigit then
        fromYmd (Nat.ofDigitChars 10 p.1 0) (Nat.ofDigitChars 10 p.2 0)
      else none

end Repo

/-! ## Numerals -/

theorem ofDigitChars_padded (width n : Nat) : Nat.ofDigitChars 10 (padded width n) 0 = n := by
  rw [padded, ofDigitChars_append, ofDigitChars_replicate_zero]
  simp

theorem isDigit_of_mem_padded {width n : Nat} {c : Char} (h : c ∈ padded width n) :
    c.isDigit = true := by
  rcases mem_append.1 h with h | h
  · rw [eq_of_mem_replicate h]
    rfl
  · exact isDigit_of_mem_toDigits (by decide) (by decide) h

variable {width n : Nat} {c : Char} {cs : List Char}

theorem all_isDigit_padded : (padded width n).all Char.isDigit = true :=
  List.all_eq_true.2 fun _ => isDigit_of_mem_padded

theorem not_mem_padded : '_' ∉ padded width n := by
  intro h
  exact absurd (isDigit_of_mem_padded h) (by decide)

theorem length_padded (hw : 0 < width) (hn : n < 10 ^ width) : (padded width n).length = width := by
  have h : (Nat.toDigits 10 n).length ≤ width :=
    (length_toDigits_le_iff (by decide) hw).2 hn
  simp only [padded, length_append, length_replicate]
  omega

theorem toNat_of_isDigit (h : c.isDigit = true) : 48 ≤ c.toNat ∧ c.toNat ≤ 57 := by
  simp only [Char.isDigit, Bool.and_eq_true, decide_eq_true_eq, UInt32.le_iff_toNat_le] at h
  exact h

/-- Numerals of one length with one value are equal, whatever is carried in. -/
theorem eq_of_ofDigitChars {ds : List Char} {a b : Nat} (hlen : cs.length = ds.length)
    (hcs : cs.all Char.isDigit = true) (hds : ds.all Char.isDigit = true)
    (h : Nat.ofDigitChars 10 cs a = Nat.ofDigitChars 10 ds b) : a = b ∧ cs = ds := by
  induction cs generalizing ds a b with
  | nil =>
    cases ds with
    | nil => exact ⟨h, rfl⟩
    | cons d ds => cases hlen
  | cons c cs ih =>
    cases ds with
    | nil => cases hlen
    | cons d ds =>
      rw [all_cons, Bool.and_eq_true] at hcs hds
      rw [ofDigitChars_cons, ofDigitChars_cons] at h
      obtain ⟨hcarry, htail⟩ := ih (Nat.succ.inj hlen) hcs.2 hds.2 h
      have hc := toNat_of_isDigit hcs.1
      have hd := toNat_of_isDigit hds.1
      have h0 : '0'.toNat = 48 := rfl
      have hchar : c = d := Char.toNat_inj.1 (by omega)
      exact ⟨by omega, by rw [hchar, htail]⟩

theorem ofDigitChars_lt (h : cs.all Char.isDigit = true) :
    Nat.ofDigitChars 10 cs 0 < 10 ^ cs.length := by
  induction cs with
  | nil => decide
  | cons c cs ih =>
    rw [all_cons, Bool.and_eq_true] at h
    have hc := toNat_of_isDigit h.1
    have h0 : '0'.toNat = 48 := rfl
    have hhead : 10 ^ cs.length * (c.toNat - '0'.toNat) ≤ 10 ^ cs.length * 9 :=
      mul_le_mul_left _ (by omega)
    have htail := ih h.2
    rw [Nat.ofDigitChars_cons, Nat.mul_zero, Nat.zero_add,
      ofDigitChars_eq_ofDigitChars_zero, length_cons, pow_succ]
    omega

/-- A numeral is its value, filled up to its length. -/
theorem padded_ofDigitChars (hne : 0 < cs.length) (h : cs.all Char.isDigit = true) :
    padded cs.length (Nat.ofDigitChars 10 cs 0) = cs := by
  have hvalue := ofDigitChars_padded cs.length (Nat.ofDigitChars 10 cs 0)
  exact (eq_of_ofDigitChars (length_padded hne (ofDigitChars_lt h)) all_isDigit_padded h hvalue).2

/-! ## Making and parsing names -/

theorem splitOnceChars_append {xs ys : List Char} (h : c ∉ xs) :
    splitOnceChars c (xs ++ c :: ys) = some (xs, ys) := by
  induction xs with
  | nil => simp [splitOnceChars]
  | cons x xs ih =>
    have hx : x ≠ c := fun h' => h (h' ▸ mem_cons_self)
    have htl := ih fun h' => h (mem_cons_of_mem x h')
    simp [splitOnceChars, hx, htl]

theorem eq_of_splitOnceChars {xs : List Char} {p : List Char × List Char}
    (h : splitOnceChars c xs = some p) : xs = p.1 ++ c :: p.2 := by
  induction xs generalizing p with
  | nil => cases h
  | cons x xs ih =>
    rw [splitOnceChars] at h
    split at h
    · next hx =>
      cases h
      rw [hx]
      rfl
    · obtain ⟨q, hq, rfl⟩ := map_eq_some_iff.1 h
      rw [ih hq]
      rfl

theorem not_mem_formatYear {y : Int} : '_' ∉ formatYear y := by
  unfold formatYear
  split
  · simp [not_mem_padded]
  · exact not_mem_padded

section
variable {t s : String} {d : Int}

/-- What a name that is parsed is made of. -/
theorem exists_of_parsed (h : Repo.parsePartitionMonth t s = some d) :
    ∃ ys ms, s.toList = t.toList ++ '_' :: (ys ++ '_' :: ms) ∧
      (ys.length = 4 ∧ ys.all Char.isDigit = true) ∧ (ms.length = 2 ∧ ms.all Char.isDigit = true) ∧
      fromYmd (Nat.ofDigitChars 10 ys 0) (Nat.ofDigitChars 10 ms 0) = some d := by
  obtain ⟨suffix, hsuffix, h⟩ := bind_eq_some_iff.1 h
  obtain ⟨⟨ys, ms⟩, hsplit, h⟩ := bind_eq_some_iff.1 h
  obtain ⟨p, hp, hpt⟩ := dropPrefix?_eq_some_iff.1 hsuffix
  dsimp only at h
  split at h
  · cases h
  next hlen =>
  split at h
  · next hdigits =>
    rw [not_or, not_not, not_not] at hlen
    rw [Bool.and_eq_true] at hdigits
    refine ⟨ys, ms, ?_, ⟨hlen.1, hdigits.1⟩, ⟨hlen.2, hdigits.2⟩, h⟩
    rw [hp, eq_of_beq hpt, eq_of_splitOnceChars hsplit]
    simp
  · cases h

theorem fromYmd_some {y m : Nat} (h : fromYmd y m = some d) :
    year d = y ∧ monthOfYear d = m ∧ 0 ≤ d ∧ d ≤ 12 * y + 11 := by
  rw [fromYmd] at h
  split at h
  · cases h
    simp only [year, monthOfYear]
    omega
  · cases h

/-- A name that is parsed is the one that is made for the month. -/
theorem partitionName_of_parsed (h : Repo.parsePartitionMonth t s = some d) :
    s = Repo.partitionName t d := by
  obtain ⟨ys, ms, hs, ⟨hylen, hydig⟩, ⟨hmlen, hmdig⟩, hd⟩ := exists_of_parsed h
  obtain ⟨hyear, hmonth, -, -⟩ := fromYmd_some hd
  have hy := padded_ofDigitChars (by omega) hydig
  have hm := padded_ofDigitChars (by omega) hmdig
  rw [hylen] at hy
  rw [hmlen] at hm
  refine String.toList_inj.1 ?_
  rw [hs, Repo.partitionName, String.toList_ofList, hmonth, hm, formatYear, hyear,
    if_neg (by omega), Int.toNat_natCast, hy]

/-- A year is determined by its format: before the year 0 it starts with a sign. -/
theorem formatYear_injective {y y' : Int} (h : formatYear y = formatYear y') : y = y' := by
  have hsign : ∀ {w n : Nat} {cs : List Char}, '-' :: cs ≠ padded w n := by
    intro w n cs h
    exact absurd (@isDigit_of_mem_padded w n '-' (h ▸ mem_cons_self)) (by decide)
  have hvalue : ∀ {w w' n n' : Nat}, padded w n = padded w' n' → n = n' := by
    intro w w' n n' h
    rw [← ofDigitChars_padded w n, h, ofDigitChars_padded]
  unfold formatYear at h
  split at h <;> split at h
  · have := hvalue (List.cons.inj h).2
    omega
  · exact absurd h hsign
  · exact absurd h.symm hsign
  · have := hvalue h
    omega

/-- The names of different months are different. -/
theorem partitionName_injective {d' : Int} (h : Repo.partitionName t d = Repo.partitionName t d') :
    d = d' := by
  have hlist := append_cancel_left (String.ofList_inj.1 h)
  have hsplit := congrArg (splitOnceChars '_') (List.cons.inj hlist).2
  rw [splitOnceChars_append not_mem_formatYear, splitOnceChars_append not_mem_formatYear,
    Option.some.injEq, Prod.mk.injEq] at hsplit
  have hyear := formatYear_injective hsplit.1
  have hmonth := congrArg (Nat.ofDigitChars 10 · 0) hsplit.2
  simp only [ofDigitChars_padded] at hmonth
  simp only [year, monthOfYear] at hyear hmonth
  omega

/-- The years of names that are parsed. -/
theorem range_of_parsed (h : Repo.parsePartitionMonth t s = some d) : 0 ≤ d ∧ d < 120000 := by
  obtain ⟨ys, ms, -, ⟨hylen, hydig⟩, -, hd⟩ := exists_of_parsed h
  obtain ⟨-, -, hpos, hle⟩ := fromYmd_some hd
  have hlt := ofDigitChars_lt hydig
  rw [hylen] at hlt
  omega

/-- A name that is made for a month of a year of four digits is parsed as the month. -/
theorem parse_partitionName_of_year (h0 : 0 ≤ year d) (h1 : year d ≤ 9999) :
    Repo.parsePartitionMonth t (Repo.partitionName t d) = some d := by
  have hname : (Repo.partitionName t d).toList = (t.toList ++ ['_']) ++
      (padded 4 (year d).toNat ++ '_' :: padded 2 (monthOfYear d)) := by
    simp [Repo.partitionName, formatYear, if_neg (Int.not_lt.2 h0)]
  have hmonth : 1 ≤ monthOfYear d ∧ monthOfYear d ≤ 12 := by
    simp only [monthOfYear]
    omega
  have hd : ((year d).toNat : Int) * 12 + ((monthOfYear d : Int) - 1) = d := by
    simp only [year, monthOfYear] at h0 ⊢
    omega
  have hy : (padded 4 (year d).toNat).length = 4 := length_padded (by decide) (by omega)
  have hm : (padded 2 (monthOfYear d)).length = 2 := length_padded (by decide) (by omega)
  rw [Repo.parsePartitionMonth, hname,
    dropPrefix?_append_of_beq _ (beq_self_eq_true _), bind_some,
    splitOnceChars_append not_mem_padded, bind_some]
  dsimp only
  rw [if_neg (by simp [hy, hm]), if_pos (by simp [all_isDigit_padded]), ofDigitChars_padded,
    ofDigitChars_padded, fromYmd, if_pos hmonth, hd]

end

/-- Names and months determine each other, for every table: the name of a month of a year from 0 to
9999 is parsed as that month, and a name that is parsed as a month is the name of that month. -/
theorem partition_names_parse_back (parentTable : String) :
    (∀ d, 0 ≤ year d → year d ≤ 9999 →
      Repo.parsePartitionMonth parentTable (Repo.partitionName parentTable d) = some d) ∧
    ∀ s d, Repo.parsePartitionMonth parentTable s = some d →
      s = Repo.partitionName parentTable d := by
  constructor
  · intro d h0 h1
    exact parse_partitionName_of_year h0 h1
  · intro s d h
    exact partitionName_of_parsed h

end Messgr.Partition
