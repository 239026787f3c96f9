import FixtureBench.Json.Outline
import FixtureBench.Json.Printer

/-!
# Values of props

A prop holds a document whose leaves are what the data format cannot express: callbacks and
instances of classes. Callbacks and classes are known by identity only. Written as a plain
document both become null, and `PropValue.toJson` undoes `PropValue.ofJson`.
-/

namespace FixtureBench

/-- A callable value. Two callbacks are equal only if they are the same callback. -/
inductive Callback where
  /-- The shared placeholder: it ignores its arguments. -/
  | noop
  /-- A callback of the host, by its identity. -/
  | host (id : String)
  /-- The callback that stands in for a prop whose calls are logged. -/
  | logging (prop : String)
deriving DecidableEq

structure ClassRef where
  id : String
  name : String
deriving DecidableEq

inductive Handle where
  | func (callback : Callback)
  | inst (ofClass : ClassRef)
deriving DecidableEq

abbrev PropValue := Tree Handle

abbrev Props := Keyed PropValue

instance : NodeNames Handle where
  bool := "boolean"
  leaf
    | .func _ => "function"
    | .inst _ => "object"

namespace PropValue

def func (callback : Callback) : PropValue := .leaf (.func callback)

def inst (ofClass : ClassRef) : PropValue := .leaf (.inst ofClass)

def ofJson (t : Json) : PropValue := t.subst nofun

/-- The plain document; callbacks and instances become null. -/
def toJson (v : PropValue) : Json := v.subst fun _ => .null

/-- The value of a double; a double that is not finite has none and becomes null. -/
def ofDouble (x : Double) : PropValue :=
  match Number.ofDouble? x with
  | some n => .num n
  | none => .null

def ofInt64 (n : Int64) : PropValue := .num (.ofInt64 n)

/-- The text of a value in messages: callbacks and instances in brackets, all else as compact
text. -/
def display : PropValue → String
  | .leaf (.func _) => "[function]"
  | .leaf (.inst c) => "[" ++ c.name ++ "]"
  | v => v.toJson.render

def parse? (text : String) : Option PropValue := (Json.parse? text).map ofJson

end PropValue

namespace Callback

/-- What a call returns. The behaviour of the host's callbacks is given by `host`; the others
return null. -/
def call (host : String → List PropValue → PropValue) (callback : Callback)
    (args : List PropValue) : PropValue :=
  match callback with
  | .host id => host id args
  | .noop | .logging _ => .null

def inspect (_callback : Callback) : String := "Callback(..)"

end Callback

namespace ClassRef

def inspect (c : ClassRef) : String := "ClassRef(" ++ c.name ++ ")"

end ClassRef

end FixtureBench
