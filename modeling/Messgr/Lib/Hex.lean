import Mathlib.Data.List.Basic
import Mathlib.Tactic.IntervalCases

/-!
# Hexadecimal digits

The value of a digit in either case (`digitOf`) and the lower-case spelling of bytes (`encode`). A
digit is determined by its value up to its case (`digitChar_of_digitOf`, `digitOf_toLower`).
-/

namespace Hex

variable {c : Char} {n : Nat}

/-- The value of a digit. -/
def digitOf (c : Char) : Option Nat :=
  if 48 ≤ c.toNat ∧ c.toNat ≤ 57 then some (c.toNat - 48)
  else if 97 ≤ c.toNat ∧ c.toNat ≤ 102 then some (c.toNat - 87)
  else if 65 ≤ c.toNat ∧ c.toNat ≤ 70 then some (c.toNat - 55)
  else none

def isDigit (c : Char) : Bool := (digitOf c).isSome

/-- The two lower-case digits of a byte. -/
def encodeByte (b : UInt8) : List Char :=
  [Nat.digitChar (b.toNat / 16), Nat.digitChar (b.toNat % 16)]

def encode (bytes : List UInt8) : List Char := bytes.flatMap encodeByte

theorem encode_cons (b : UInt8) (bytes : List UInt8) :
    encode (b :: bytes) = Nat.digitChar (b.toNat / 16) :: Nat.digitChar (b.toNat % 16) ::
      encode bytes := rfl

theorem digitOf_digitChar (h : n < 16) : digitOf (Nat.digitChar n) = some n := by
  interval_cases n <;> decide

/-- A digit is the character of its value, in one of two cases. -/
theorem digitChar_of_digitOf (h : digitOf c = some n) : n < 16 ∧ Nat.digitChar n = c.toLower := by
  unfold digitOf at h
  rw [← Char.ofNat_toNat c]
  generalize c.toNat = k at h ⊢
  split_ifs at h with hk hk hk
  all_goals
    cases h
    obtain ⟨hle, hge⟩ := hk
    interval_cases k <;> decide

theorem digitOf_toLower : digitOf c.toLower = digitOf c := by
  by_cases hc : 65 ≤ c.toNat ∧ c.toNat ≤ 90
  · rw [← Char.ofNat_toNat c]
    generalize c.toNat = k at hc ⊢
    obtain ⟨hle, hge⟩ := hc
    interval_cases k <;> decide
  · have hsame : c.toLower = c := by
      unfold Char.toLower
      rw [dif_neg]
      exact hc
    rw [hsame]

theorem isDigit_of_mem_encode {bytes : List UInt8} (h : c ∈ encode bytes) : isDigit c = true := by
  obtain ⟨b, -, hc⟩ := List.mem_flatMap.1 h
  have hb := b.toNat_lt
  simp only [encodeByte, List.mem_cons, List.not_mem_nil, or_false] at hc
  rcases hc with rfl | rfl
  · rw [isDigit, digitOf_digitChar (by omega)]
    rfl
  · rw [isDigit, digitOf_digitChar (by omega)]
    rfl

end Hex
