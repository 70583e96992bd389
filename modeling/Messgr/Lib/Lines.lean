import Mathlib.Logic.Basic

/-!
# Files of lines

A text is a list of symbols and line ends (`none`). `lines` is what reading it line by line gives,
with a last line that need not be ended, and `unlines` writes lines. What is written is read back
(`lines_unlines`), and to a text whose last line is ended lines can be added without touching those
it has (`lines_append`).
-/

namespace Lines

open List

variable {α : Type*} {text : List (Option α)}

/-- The lines of a text, the first of which begins with `line`. -/
def linesFrom (line : List α) : List (Option α) → List (List α)
  | [] => if line.isEmpty then [] else [line]
  | none :: text => line :: linesFrom [] text
  | some a :: text => linesFrom (line ++ [a]) text

/-- The lines of a text. -/
def lines (text : List (Option α)) : List (List α) := linesFrom [] text

/-- A line and its end. -/
def ended (line : List α) : List (Option α) := line.map some ++ [none]

/-- The text of some lines. -/
def unlines (ls : List (List α)) : List (Option α) := ls.flatMap ended

/-- Every line is ended. -/
def closed (text : List (Option α)) : Bool := text.getLast?.all Option.isNone

theorem linesFrom_ended (line rest : List α) (text : List (Option α)) :
    linesFrom line (ended rest ++ text) = (line ++ rest) :: lines text := by
  induction rest generalizing line with
  | nil => simp [ended, linesFrom, lines]
  | cons a rest ih =>
    have := ih (line ++ [a])
    simpa [ended, linesFrom] using this

theorem lines_unlines (ls : List (List α)) : lines (unlines ls) = ls := by
  induction ls with
  | nil => rfl
  | cons line ls ih =>
    rw [unlines, flatMap_cons, lines, linesFrom_ended, nil_append]
    exact congrArg _ ih

theorem linesFrom_append {line : List α} (more : List (Option α)) (h : text.getLast? = some none) :
    linesFrom line (text ++ more) = linesFrom line text ++ lines more := by
  induction text generalizing line with
  | nil => cases h
  | cons x text ih =>
    cases text with
    | nil =>
      cases h
      simp [linesFrom, lines]
    | cons y text =>
      rw [getLast?_cons_cons] at h
      cases x with
      | none | some => simpa [linesFrom] using ih h

/-- A line end more ends the last line, or adds an empty one. -/
theorem linesFrom_append_end (line : List α) (text : List (Option α)) :
    linesFrom line (text ++ [none]) = linesFrom line text ∨
      linesFrom line (text ++ [none]) = linesFrom line text ++ [[]] := by
  induction text generalizing line with
  | nil =>
    cases line with
    | nil => exact .inr rfl
    | cons a line => exact .inl rfl
  | cons x text ih =>
    cases x with
    | none => simpa [linesFrom] using ih []
    | some a => simpa [linesFrom] using ih (line ++ [a])

/-- A text that is one line without its end. -/
theorem linesFrom_map_some (line rest : List α) (h : line ++ rest ≠ []) :
    linesFrom line (rest.map some) = [line ++ rest] := by
  induction rest generalizing line with
  | nil => simpa [linesFrom] using h
  | cons a rest ih => simpa [linesFrom] using ih (line ++ [a]) (by simp)

/-- What is added to a text whose lines are ended is lines of its own. -/
theorem lines_append (h : closed text = true) (more : List (Option α)) :
    lines (text ++ more) = lines text ++ lines more := by
  cases text with
  | nil => rfl
  | cons x text =>
    refine linesFrom_append more ?_
    rw [closed, getLast?_eq_some_getLast (by simp), Option.all_some, Option.isNone_iff_eq_none] at h
    rw [getLast?_eq_some_getLast (by simp), h]

end Lines
