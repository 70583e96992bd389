import Messgr.Lib.Delimiter
import Messgr.Template.Render

/-!
# Rendering is a single pass

The body of a template, from outside: `Decomposes` takes it apart at each first `{{` and the
next `}}` after it, in one way only (`exists_decomposes`, `Decomposes.unique`). Rendering is
the substitution of the values in these pieces (`renderRest_of_decomposes`): a value is never
scanned, the error is that of the leftmost placeholder that has one, and only the keys of the body
are looked up (`render_single_pass`).
-/

namespace Messgr

open List Option
open Delimiter

/-! ## The pieces of a body -/

/-- What follows the last closed placeholder: text, or text and a placeholder that is not closed. -/
inductive Tail
  | closed (literal : List Char)
  | unclosed (literal rest : List Char)
deriving DecidableEq

/-- A body by its closed placeholders, each with the text before it and its key as it is written,
and what follows them. -/
structure Pieces where
  placeholders : List (List Char × List Char)
  tail : Tail
deriving DecidableEq

def opening : List Char := ['{', '{']

def closing : List Char := ['}', '}']

/-- The body is taken apart at each first opening and the next closing after it. -/
inductive Decomposes : List Char → Pieces → Prop
  | closed {body : List Char} : ¬ opening <:+: body → Decomposes body ⟨[], .closed body⟩
  | unclosed {body literal after : List Char} :
      FirstAt opening body literal after → ¬ closing <:+: after →
      Decomposes body ⟨[], .unclosed literal after⟩
  | placeholder {body literal after key rest : List Char} {ps : Pieces} :
      FirstAt opening body literal after → FirstAt closing after key rest → Decomposes rest ps →
      Decomposes body ⟨(literal, key) :: ps.placeholders, ps.tail⟩

/-- Every body has a decomposition. -/
theorem exists_decomposes (body : List Char) : ∃ ps, Decomposes body ps := by
  induction hlen : body.length using Nat.strong_induction_on generalizing body with
  | _ n ih =>
    by_cases hopen : opening <:+: body
    · obtain ⟨literal, after, hfirst⟩ := exists_firstAt hopen
      by_cases hclose : closing <:+: after
      · obtain ⟨key, rest, hnext⟩ := exists_firstAt hclose
        have hshort : rest.length < n := by
          rw [← hlen, hfirst.eq, hnext.eq]
          simp only [opening, closing, length_append, length_cons]
          omega
        obtain ⟨ps, hps⟩ := ih _ hshort rest rfl
        exact ⟨_, .placeholder hfirst hnext hps⟩
      · exact ⟨_, .unclosed hfirst hclose⟩
    · exact ⟨_, .closed hopen⟩

/-- A body has one decomposition only. -/
theorem Decomposes.unique {body : List Char} {ps qs : Pieces} (h : Decomposes body ps)
    (h' : Decomposes body qs) : ps = qs := by
  induction h generalizing qs with
  | closed hopen =>
    cases h' with
    | closed => rfl
    | unclosed hfirst | placeholder hfirst => exact absurd hfirst.isInfix hopen
  | unclosed hfirst hclose =>
    cases h' with
    | closed hopen => exact absurd hfirst.isInfix hopen
    | unclosed hfirst' =>
      obtain ⟨rfl, rfl⟩ := hfirst.unique hfirst'
      rfl
    | placeholder hfirst' hnext =>
      obtain ⟨rfl, rfl⟩ := hfirst.unique hfirst'
      exact absurd hnext.isInfix hclose
  | placeholder hfirst hnext _ ih =>
    cases h' with
    | closed hopen => exact absurd hfirst.isInfix hopen
    | unclosed hfirst' hclose =>
      obtain ⟨rfl, rfl⟩ := hfirst.unique hfirst'
      exact absurd hnext.isInfix hclose
    | placeholder hfirst' hnext' hrest =>
      obtain ⟨rfl, rfl⟩ := hfirst.unique hfirst'
      obtain ⟨rfl, rfl⟩ := hnext.unique hnext'
      rw [ih hrest]

/-! ## What the scanner makes of them -/

section
variable {values : List (String × String)} {c : Char} {body literal key k after rest : List Char}

theorem renderRest_literal (h : ¬ opening <+: c :: body) :
    renderRest values none (c :: body) = (renderRest values none body).map (c :: ·) := by
  rw [renderRest]
  rintro rest rfl rfl
  exact h ⟨rest, rfl⟩

theorem renderRest_key (h : ¬ closing <+: c :: body) :
    renderRest values (some key) (c :: body) = renderRest values (some (key ++ [c])) body := by
  rw [renderRest]
  rintro rest rfl rfl
  exact h ⟨rest, rfl⟩

theorem map_append_cons {r : Except RenderError (List Char)} :
    (r.map (literal ++ ·)).map (c :: ·) = r.map (c :: literal ++ ·) := by
  cases r with
  | error e => rfl
  | ok out => rfl

/-- Text without an opening is itself. -/
theorem renderRest_of_not_infix (h : ¬ opening <:+: body) :
    renderRest values none body = .ok body := by
  induction body with
  | nil => rw [renderRest]
  | cons c body ih =>
    rw [infix_cons_iff, not_or] at h
    rw [renderRest_literal h.1, ih h.2]
    rfl

/-- The text before the first opening is kept. -/
theorem renderRest_of_firstAt (h : FirstAt opening body literal after) :
    renderRest values none body = (renderRest values (some []) after).map (literal ++ ·) := by
  induction literal generalizing body with
  | nil =>
    rw [h.eq]
    show renderRest values none ('{' :: '{' :: after) = _
    rw [renderRest]
    cases renderRest values (some []) after with
    | error e => rfl
    | ok out => rfl
  | cons c literal ih =>
    obtain ⟨body', rfl, hnot, hfirst⟩ := h.uncons
    rw [renderRest_literal hnot, ih hfirst, map_append_cons]

/-- A placeholder that is never closed. -/
theorem renderRest_unclosed (h : ¬ closing <:+: body) :
    renderRest values (some key) body =
      .error (.unterminatedPlaceholder (String.ofList (opening ++ (key ++ body)))) := by
  induction body generalizing key with
  | nil =>
    rw [renderRest, append_nil]
    rfl
  | cons c body ih =>
    rw [infix_cons_iff, not_or] at h
    rw [renderRest_key h.1, ih h.2, append_assoc, singleton_append]

/-- A placeholder up to the next closing. -/
theorem renderRest_closed (h : FirstAt closing body k rest) :
    renderRest values (some key) body =
      match values.lookup (trim (key ++ k)) with
      | none => .error (.missingVariable (trim (key ++ k)))
      | some value => (renderRest values none rest).map (value.toList ++ ·) := by
  induction k generalizing body key with
  | nil =>
    rw [h.eq, append_nil]
    show renderRest values (some key) ('}' :: '}' :: rest) = _
    cases hlookup : values.lookup (trim key) with
    | none | some => simp only [renderRest, hlookup]
  | cons c k ih =>
    obtain ⟨body', rfl, hnot, hfirst⟩ := h.uncons
    rw [renderRest_key hnot, ih hfirst, append_assoc, singleton_append]

end

/-! ## Substitution -/

section
variable (values : List (String × String))

/-- The value of the key of a placeholder. -/
def valueOf (p : List Char × List Char) : Option String := values.lookup (trim p.2)

/-- The pieces with the values in the places of the placeholders, from left to right. -/
def substitute : List (List Char × List Char) → Tail → Except RenderError (List Char)
  | [], .closed literal => .ok literal
  | [], .unclosed _ rest => .error (.unterminatedPlaceholder (String.ofList (opening ++ rest)))
  | p :: ps, tail =>
    match valueOf values p with
    | none => .error (.missingVariable (trim p.2))
    | some value => (substitute ps tail).map (p.1 ++ value.toList ++ ·)

end

section
variable {values values' : List (String × String)} {body : List Char} {ps : Pieces}
variable {l : List (List Char × List Char)} {tail : Tail}

/-- The scanner substitutes in the pieces of the body. -/
theorem renderRest_of_decomposes (h : Decomposes body ps) :
    renderRest values none body = substitute values ps.placeholders ps.tail := by
  induction h with
  | closed hopen => exact renderRest_of_not_infix hopen
  | unclosed hfirst hclose =>
    rw [renderRest_of_firstAt hfirst, renderRest_unclosed hclose]
    rfl
  | @placeholder _ literal _ key _ _ hfirst hnext _ ih =>
    rw [renderRest_of_firstAt hfirst, renderRest_closed hnext, nil_append, ih, substitute, valueOf]
    cases values.lookup (trim key) with
    | none => rfl
    | some value =>
      dsimp only
      cases substitute values _ _ with
      | error e => rfl
      | ok out =>
        exact congrArg Except.ok (append_assoc _ _ _).symm

/-- The values of the placeholders before the end of the list are there. -/
theorem substitute_of_some (h : ∀ p ∈ l, (valueOf values p).isSome = true)
    (l' : List (List Char × List Char)) : substitute values (l ++ l') tail =
      (substitute values l' tail).map
        (l.flatMap (fun p => p.1 ++ ((valueOf values p).getD "").toList) ++ ·) := by
  induction l with
  | nil =>
    cases hs : substitute values l' tail with
    | error e => exact hs
    | ok out => exact hs
  | cons p l ih =>
    obtain ⟨hp, hl⟩ := forall_mem_cons.1 h
    obtain ⟨value, hvalue⟩ := isSome_iff_exists.1 hp
    rw [cons_append, substitute, hvalue]
    dsimp only
    rw [ih hl, flatMap_cons, hvalue]
    cases substitute values l' tail with
    | error e => rfl
    | ok out =>
      refine congrArg Except.ok ?_
      simp only [getD_some, append_assoc]

/-- The leftmost placeholder without a value, or all of them have one. -/
theorem exists_leftmost (l : List (List Char × List Char)) :
    (∀ p ∈ l, (valueOf values p).isSome = true) ∨ ∃ pre p post, l = pre ++ p :: post ∧
      (∀ q ∈ pre, (valueOf values q).isSome = true) ∧ valueOf values p = none := by
  induction l with
  | nil => exact .inl nofun
  | cons p l ih =>
    cases hp : valueOf values p with
    | none => exact .inr ⟨[], p, l, rfl, nofun, hp⟩
    | some value =>
      have hsome : (valueOf values p).isSome = true := by rw [hp]; rfl
      rcases ih with hl | ⟨pre, q, post, rfl, hpre, hq⟩
      · exact .inl (forall_mem_cons.2 ⟨hsome, hl⟩)
      · exact .inr ⟨p :: pre, q, post, rfl, forall_mem_cons.2 ⟨hsome, hpre⟩, hq⟩

theorem substitute_missing {pre post : List (List Char × List Char)} {p : List Char × List Char}
    (hpre : ∀ q ∈ pre, (valueOf values q).isSome = true) (hp : valueOf values p = none) :
    substitute values (pre ++ p :: post) tail = .error (.missingVariable (trim p.2)) := by
  rw [substitute_of_some hpre, substitute, hp]
  rfl

theorem substitute_present (h : ∀ p ∈ l, (valueOf values p).isSome = true) :
    substitute values l tail = (substitute values [] tail).map
      (l.flatMap (fun p => p.1 ++ ((valueOf values p).getD "").toList) ++ ·) := by
  have hs : substitute values (l ++ []) tail = _ := substitute_of_some h []
  rwa [append_nil] at hs

theorem substitute_congr (h : ∀ p ∈ l, valueOf values' p = valueOf values p) :
    substitute values' l tail = substitute values l tail := by
  induction l with
  | nil =>
    cases tail with
    | closed | unclosed => rfl
  | cons p l ih =>
    obtain ⟨hp, hl⟩ := forall_mem_cons.1 h
    rw [substitute, substitute, hp, ih hl]

end

/-- Rendering substitutes once, from left to right: a body has one decomposition, it is rendered
exactly if every placeholder is closed and has a value, to the text with the values as they are; the
error is that of the leftmost placeholder that is not closed or has no value; and values of other
keys change nothing. -/
theorem render_single_pass (body : String) (values : List (String × String)) :
    ∃ ps, Decomposes body.toList ps ∧ (∀ qs, Decomposes body.toList qs → qs = ps) ∧
      ((∃ out, render body values = .ok out) ↔ (∃ literal, ps.tail = .closed literal) ∧
        ∀ p ∈ ps.placeholders, (valueOf values p).isSome = true) ∧
      (∀ out literal, render body values = .ok out → ps.tail = .closed literal →
        out.toList = ps.placeholders.flatMap
          (fun p => p.1 ++ ((valueOf values p).getD "").toList) ++ literal) ∧
      (∀ pre p post, ps.placeholders = pre ++ p :: post →
        (∀ q ∈ pre, (valueOf values q).isSome = true) → valueOf values p = none →
        render body values = .error (.missingVariable (trim p.2))) ∧
      (∀ literal rest, ps.tail = .unclosed literal rest →
        (∀ p ∈ ps.placeholders, (valueOf values p).isSome = true) →
        render body values = .error (.unterminatedPlaceholder (String.ofList (opening ++ rest)))) ∧
      ∀ values', (∀ p ∈ ps.placeholders, valueOf values' p = valueOf values p) →
        render body values' = render body values := by
  obtain ⟨ps, hps⟩ := exists_decomposes body.toList
  have hrender : ∀ values, render body values =
      (substitute values ps.placeholders ps.tail).map String.ofList :=
    fun values => congrArg (Except.map String.ofList) (renderRest_of_decomposes hps)
  refine ⟨ps, hps, fun qs hqs => hqs.unique hps, ⟨?_, ?_⟩, fun out literal hout htail => ?_,
    fun pre p post hl hpre hp => ?_, fun literal rest htail hall => ?_, fun values' hsame => ?_⟩
  · rintro ⟨out, hout⟩
    rw [hrender] at hout
    rcases exists_leftmost ps.placeholders with hall | ⟨pre, p, post, hl, hpre, hp⟩
    · refine ⟨?_, hall⟩
      cases htail : ps.tail with
      | closed literal => exact ⟨literal, rfl⟩
      | unclosed literal rest =>
        rw [htail, substitute_present hall] at hout
        cases hout
    · rw [hl, substitute_missing hpre hp] at hout
      cases hout
  · rintro ⟨⟨literal, htail⟩, hall⟩
    rw [hrender, substitute_present hall, htail]
    exact ⟨_, rfl⟩
  · rw [hrender, htail] at hout
    rcases exists_leftmost ps.placeholders with hall | ⟨pre, p, post, hl, hpre, hp⟩
    · rw [substitute_present hall] at hout
      cases hout
      exact String.toList_ofList
    · rw [hl, substitute_missing hpre hp] at hout
      cases hout
  · rw [hrender, hl, substitute_missing hpre hp]
    rfl
  · rw [hrender, substitute_present hall, htail]
    rfl
  · rw [hrender, hrender, substitute_congr hsame]

-- the braces of a value are not scanned, and the third closing brace is text
example : render "\x7b\x7b a \x7d\x7d\x7d" [("a", "\x7b\x7bb\x7d\x7d")] =
    .ok "\x7b\x7bb\x7d\x7d\x7d" := by decide +kernel

end Messgr
