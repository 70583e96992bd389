import Mathlib.Data.List.Basic

/-!
# Routes by their segments

The paths of a router as lists of segments, with parameters (`Pattern`). A path matches a pattern if
its segments are those of the pattern, with anything but the empty text in the places of the
parameters (`values`). Where no two patterns of a router overlap, a path matches at most one of
them, and which one is found does not depend on their order (`find_eq_some_iff`).
-/

namespace Route

open Option List

inductive Segment
  | static (text : String)
  | param (name : String)
deriving DecidableEq

abbrev Pattern := List Segment

def Segment.text : Segment → String
  | .static text => text
  | .param name => "\x7b" ++ name ++ "\x7d"

/-- The pattern as it is written. -/
def text (p : Pattern) : String := "/".intercalate (p.map Segment.text)

/-- The values of the parameters of a pattern in a path that matches it. -/
def values : Pattern → List String → Option (List (String × String))
  | [], [] => some []
  | .static text :: p, s :: path => if s = text then values p path else none
  | .param name :: p, s :: path => if s = "" then none else (values p path).map ((name, s) :: ·)
  | _, _ => none

/-- The pattern of a router that a path matches, with the values of its parameters. -/
def find (routes : List Pattern) (path : List String) : Option (Pattern × List (String × String)) :=
  routes.findSome? fun p => (values p path).map (p, ·)

/-- Some path may match both patterns. -/
def overlaps : Pattern → Pattern → Bool
  | [], [] => true
  | .static s :: p, .static t :: q => s = t && overlaps p q
  | _ :: p, _ :: q => overlaps p q
  | _, _ => false

section
variable {p q : Pattern} {path : List String} {vs ws : List (String × String)} {s n : String}

theorem values_nil (h : values [] path = some vs) : path = [] ∧ vs = [] := by
  cases path with
  | nil =>
    cases h
    exact ⟨rfl, rfl⟩
  | cons s path => cases h

theorem values_static (h : values (.static s :: p) path = some vs) :
    ∃ rest, path = s :: rest ∧ values p rest = some vs := by
  cases path with
  | nil => cases h
  | cons t rest =>
    obtain ⟨rfl, hrest⟩ := ite_none_right_eq_some.1 h
    exact ⟨rest, rfl, hrest⟩

theorem values_param (h : values (.param n :: p) path = some vs) :
    ∃ t rest ws, path = t :: rest ∧ values p rest = some ws ∧ vs = (n, t) :: ws := by
  cases path with
  | nil => cases h
  | cons t rest =>
    obtain ⟨-, h⟩ := ite_none_left_eq_some.1 h
    obtain ⟨ws, hws, rfl⟩ := map_eq_some_iff.1 h
    exact ⟨t, rest, ws, rfl, hws, rfl⟩

/-- Behind the first segment of a pattern that a path matches. -/
theorem values_cons {x : Segment} (h : values (x :: p) path = some vs) :
    ∃ t rest ws, path = t :: rest ∧ values p rest = some ws := by
  cases x with
  | static s =>
    obtain ⟨rest, hpath, h⟩ := values_static h
    exact ⟨s, rest, vs, hpath, h⟩
  | param n =>
    obtain ⟨t, rest, ws, hpath, h, -⟩ := values_param h
    exact ⟨t, rest, ws, hpath, h⟩

/-- Patterns that match one path overlap. -/
theorem overlaps_of_values (hp : values p path = some vs) (hq : values q path = some ws) :
    overlaps p q = true := by
  induction p generalizing q path vs ws with
  | nil =>
    obtain ⟨rfl, -⟩ := values_nil hp
    cases q with
    | nil => rfl
    | cons y q =>
      obtain ⟨_, _, _, hpath, -⟩ := values_cons hq
      cases hpath
  | cons x p ih =>
    obtain ⟨s, rest, vs', rfl, hp'⟩ := values_cons hp
    cases q with
    | nil => exact absurd (values_nil hq).1 nofun
    | cons y q =>
      obtain ⟨_, _, ws', hpath, hq'⟩ := values_cons hq
      cases hpath
      have hrest := ih hp' hq'
      cases x with
      | param n =>
        cases y with
        | param | static => exact hrest
      | static s1 =>
        cases y with
        | param n' => exact hrest
        | static s2 =>
          obtain ⟨_, h1, -⟩ := values_static hp
          obtain ⟨_, h2, -⟩ := values_static hq
          cases h1
          cases h2
          simp [overlaps, hrest]

/-- What is found matches, and is all that matches. -/
theorem find_eq_some_iff {routes : List Pattern}
    (hroutes : routes.Pairwise fun p q => overlaps p q = false) :
    find routes path = some (p, vs) ↔ p ∈ routes ∧ values p path = some vs := by
  induction routes with
  | nil => simp [find]
  | cons q routes ih =>
    obtain ⟨hq, hroutes⟩ := pairwise_cons.1 hroutes
    rw [find, findSome?_cons]
    cases hv : values q path with
    | none =>
      rw [map_none]
      refine (ih hroutes).trans ⟨fun h => ⟨.tail _ h.1, h.2⟩, fun h => ⟨?_, h.2⟩⟩
      rcases mem_cons.1 h.1 with rfl | hmem
      · rw [hv] at h
        cases h.2
      · exact hmem
    | some ws =>
      rw [map_some]
      constructor
      · intro h
        cases h
        exact ⟨.head _, hv⟩
      · rintro ⟨hmem, hvs⟩
        rcases mem_cons.1 hmem with rfl | hmem
        · cases hv.symm.trans hvs
          rfl
        · exact absurd (overlaps_of_values hv hvs) (by rw [hq p hmem]; exact nofun)

end

end Route
