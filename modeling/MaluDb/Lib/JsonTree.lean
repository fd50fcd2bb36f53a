import Mathlib.Data.List.Basic

/-!
# JSON values of a database

Values of the type `jsonb` and the operators on them. A NULL of SQL is `none`, and the `null` of
JSON is a value.
-/

namespace MaluDb.Lib

/-- A value of the type `jsonb`. Numbers are kept as their text. -/
inductive JsonTree where
  | null
  | boolean (b : Bool)
  | number (t : List Char)
  | string (t : List Char)
  | array (l : List JsonTree)
  | object (l : List (List Char × JsonTree))

namespace JsonTree

section

variable (render : JsonTree → List Char) (key : List Char)

/-- `j ? key`. -/
def has : JsonTree → Bool
  | .object l => (l.lookup key).isSome
  | .array l => l.any fun
    | .string t => t = key
    | _ => false
  | .string t => t = key
  | _ => false

/-- `j -> key`. -/
def get : JsonTree → Option JsonTree
  | .object l => l.lookup key
  | _ => none

/-- The text of a value without its quotes, if it is not `null`; `render` prints arrays and
objects. -/
def unquoted : JsonTree → Option (List Char)
  | .null => none
  | .boolean b => some (if b then "true" else "false").toList
  | .number t => some t
  | .string t => some t
  | j => some (render j)

/-- `j ->> key`. -/
def getText (j : JsonTree) : Option (List Char) :=
  (j.get key).bind (unquoted render)

/-- The elements that a value stands for on either side of `||`. -/
def elements : JsonTree → List JsonTree
  | .array l => l
  | j => [j]

/-- `a || b`. -/
def concat : JsonTree → JsonTree → JsonTree
  | .object l, .object l' => .object (l' ++ l.filter fun m => (l'.lookup m.1).isNone)
  | a, b => .array (a.elements ++ b.elements)

inductive NotArray where
  | scalar
  | object

def NotArray.message : NotArray → String
  | .scalar => "cannot extract elements from a scalar"
  | .object => "cannot extract elements from an object"

/-- `jsonb_array_elements_text`. -/
def elementsText :
    JsonTree → Except NotArray (List (Option (List Char)))
  | .array l => .ok (l.map (unquoted render))
  | .object _ => .error .object
  | _ => .error .scalar

end

end JsonTree

end MaluDb.Lib
