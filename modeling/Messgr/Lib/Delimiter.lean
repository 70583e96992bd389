import Mathlib.Data.List.Infix

/-!
# The first place of a delimiter

`FirstAt d l pre post` says that the first place of `d` in the list `l` is between `pre` and `post`.
There is one as soon as `d` is somewhere in `l` (`exists_firstAt`), and one only
(`FirstAt.unique`). A scanner that looks for `d` element by element comes to it by
`FirstAt.uncons`.
-/

namespace Delimiter

open List Nat

variable {α : Type*} {d l pre pre' post post' : List α} {c : α}

/-- The first place of `d` in `l`. -/
structure FirstAt (d l pre post : List α) : Prop where
  eq : l = pre ++ d ++ post
  first : ∀ pre' post', l = pre' ++ d ++ post' → pre.length ≤ pre'.length

theorem FirstAt.unique (h : FirstAt d l pre post) (h' : FirstAt d l pre' post') :
    pre = pre' ∧ post = post' := by
  have hlen : pre.length = pre'.length :=
    le_antisymm (h.first _ _ h'.eq) (h'.first _ _ h.eq)
  have heq := h.eq.symm.trans h'.eq
  rw [append_assoc, append_assoc] at heq
  obtain ⟨hpre, hrest⟩ := append_inj heq hlen
  exact ⟨hpre, append_cancel_left hrest⟩

theorem FirstAt.isInfix (h : FirstAt d l pre post) : d <:+: l := ⟨pre, post, h.eq.symm⟩

/-- A delimiter that is not at the front is behind the first element. -/
theorem FirstAt.uncons (h : FirstAt d l (c :: pre) post) :
    ∃ l', l = c :: l' ∧ ¬ d <+: l ∧ FirstAt d l' pre post := by
  refine ⟨pre ++ d ++ post, h.eq, ?_, rfl, fun pre' post' heq => ?_⟩
  · rintro ⟨post', heq⟩
    exact absurd (h.first [] post' heq.symm) (by simp)
  · have hle := h.first (c :: pre') post' (by rw [h.eq]; simpa using heq)
    simpa using hle

/-- What contains the delimiter contains it first somewhere. -/
theorem exists_firstAt (h : d <:+: l) : ∃ pre post, FirstAt d l pre post := by
  induction l with
  | nil =>
    obtain rfl := eq_nil_of_infix_nil h
    exact ⟨[], [], rfl, fun _ _ _ => zero_le _⟩
  | cons c l ih =>
    by_cases hfront : d <+: c :: l
    · obtain ⟨post, hpost⟩ := hfront
      exact ⟨[], post, hpost.symm, fun _ _ _ => zero_le _⟩
    · obtain ⟨pre, post, hfirst⟩ := ih ((infix_cons_iff.1 h).resolve_left hfront)
      refine ⟨c :: pre, post, by rw [hfirst.eq]; rfl, fun pre' post' heq => ?_⟩
      cases pre' with
      | nil => exact absurd ⟨post', heq.symm⟩ hfront
      | cons c' pre' =>
        obtain ⟨-, heq⟩ := List.cons.inj heq
        exact succ_le_succ (hfirst.first pre' post' heq)

end Delimiter
