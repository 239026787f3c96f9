import FixtureBench.PropValue

/-!
# Scalar types

The nine types without arguments, and which present values each of them accepts.
-/

namespace FixtureBench

inductive Scalar where
  | array
  | bool
  | func
  | number
  | object
  | string
  | any
  | element
  | node
deriving DecidableEq

namespace Scalar

/-- The scalars in the order in which libraries build them. -/
def all : List Scalar := [array, bool, func, number, object, string, any, element, node]

def name : Scalar → String
  | array => "array"
  | bool => "bool"
  | func => "func"
  | number => "number"
  | object => "object"
  | string => "string"
  | any => "any"
  | element => "element"
  | node => "node"

mutual

/-- Whether a value can be rendered: nothing, `false`, text, numbers, elements, and arrays of
these. -/
def isRenderable : PropValue → Bool
  | .null => true
  | .bool b => !b
  | .num _ => true
  | .str _ => true
  | .arr items => areRenderable items
  | .obj _ => true
  | .leaf _ => false

def areRenderable : List PropValue → Bool
  | [] => true
  | v :: rest => isRenderable v && areRenderable rest

end

/-- Whether a value that is present and not null has the type. Elements are markup text or element
objects. -/
def accepts : Scalar → PropValue → Bool
  | any, _ => true
  | array, .arr _ => true
  | bool, .bool _ => true
  | func, .leaf (.func _) => true
  | number, .num _ => true
  | object, .obj _ => true
  | object, .leaf (.inst _) => true
  | string, .str _ => true
  | element, .str _ => true
  | element, .obj _ => true
  | node, v => isRenderable v
  | _, _ => false

end Scalar

end FixtureBench
