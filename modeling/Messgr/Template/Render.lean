import Messgr.Base

/-!
# Rendering a template

`src/template/render.rs`: every placeholder of a template's body, a key between double braces, is
replaced by the value of the key. A key without a value and a placeholder that is not closed are
errors.
-/

namespace Messgr

/-- Source: `RenderError`. -/
inductive RenderError
  | missingVariable (key : String)
  | unterminatedPlaceholder (rest : String)
deriving DecidableEq

/-- `char::is_whitespace`: the property `White_Space` of Unicode. -/
def isWhitespace (c : Char) : Bool :=
  let n := c.toNat
  (9 ≤ n && n ≤ 13) || n == 0x20 || n == 0x85 || n == 0xa0 || n == 0x1680 ||
    (0x2000 ≤ n && n ≤ 0x200a) || n == 0x2028 || n == 0x2029 || n == 0x202f || n == 0x205f ||
    n == 0x3000

/-- `str::trim`. -/
def trim (s : List Char) : String :=
  String.ofList ((s.dropWhile isWhitespace).reverse.dropWhile isWhitespace).reverse

/-- The rest of the body, outside a placeholder or behind the characters `key` of one. -/
def renderRest (values : List (String × String)) :
    Option (List Char) → List Char → Except RenderError (List Char)
  | none, '{' :: '{' :: rest => renderRest values (some []) rest
  | none, c :: rest => (renderRest values none rest).map (c :: ·)
  | none, [] => .ok []
  | some key, '}' :: '}' :: rest =>
    match values.lookup (trim key) with
    | none => .error (.missingVariable (trim key))
    | some value => (renderRest values none rest).map (value.toList ++ ·)
  | some key, c :: rest => renderRest values (some (key ++ [c])) rest
  | some key, [] => .error (.unterminatedPlaceholder (String.ofList ('{' :: '{' :: key)))

/-- Source: `render`. -/
def render (body : String) (values : List (String × String)) : Except RenderError String :=
  (renderRest values none body.toList).map String.ofList

end Messgr
