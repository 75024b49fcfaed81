import StateEngine.Number.Literal

/-!
# Values

The values that definitions are written in, that events carry and that callbacks return. The
members of an object keep their order. `Json.text` is their compact text, `Json.debugText` the
text that names each value's kind.

* `Json.present?`, `Json.firstPresent?`: members that are there and not `null`.
* `Json.truthy`: the truth of a stored value.
* `Json.WellFormed`: no object has two members of one key.
-/

namespace StateEngine

inductive Json where
  | null
  | bool (value : Bool)
  | number (value : Number)
  | string (value : String)
  | array (items : List Json)
  | object (members : List (String × Json))
  deriving Repr, Inhabited

/-- The members of an object, in order. -/
abbrev Members := List (String × Json)

namespace Json

def isNull : Json → Bool
  | null => true
  | _ => false

def string? : Json → Option String
  | string s => some s
  | _ => none

def members? : Json → Option Members
  | object members => some members
  | _ => none

/-- An array as its items, `null` as no item, and anything else as the one item it is. -/
def toItems : Json → List Json
  | null => []
  | array items => items
  | value => [value]

/-- **Truth of a stored value**: `null`, `false`, zero and the empty string are false, and every
array and object is true. -/
def truthy : Json → Bool
  | null => false
  | bool b => b
  | number n => !n.isZero
  | string s => !s.isEmpty
  | array _ => true
  | object _ => true

/-- A list of strings as an array. -/
def ofStrings (names : List String) : Json := .array (names.map .string)

mutual

/-- No object inside has two members of one key. -/
def WellFormed : Json → Prop
  | array items => AllWellFormed items
  | object members => (members.map (·.1)).Nodup ∧ MembersWellFormed members
  | _ => True

/-- Every item is well formed. -/
def AllWellFormed : List Json → Prop
  | [] => True
  | v :: rest => v.WellFormed ∧ AllWellFormed rest

/-- Every member's value is well formed. -/
def MembersWellFormed : List (String × Json) → Prop
  | [] => True
  | (_, v) :: rest => v.WellFormed ∧ MembersWellFormed rest

end

end Json

namespace Members

/-- Set a member: a key that is there keeps its place and takes the new value. -/
def put (key : String) (value : Json) : Members → Members
  | [] => [(key, value)]
  | (k, v) :: rest => if k = key then (k, value) :: rest else (k, v) :: put key value rest

/-- Change the member of a key, if there is one. -/
def change (members : Members) (key : String) (f : Json → Json) : Members :=
  members.map fun (k, v) => if k = key then (k, f v) else (k, v)

/-- The member of a key, if it is there and not `null`. -/
def present? (members : Members) (key : String) : Option Json :=
  (members.lookup key).filter (!·.isNull)

/-- The first of the keys that is present. -/
def firstPresent? (members : Members) (keys : List String) : Option Json :=
  keys.findSome? members.present?

/-- The keys of the members that are not `null`, in order. -/
def presentKeys (members : Members) : List String :=
  (members.filter fun member => !member.2.isNull).map (·.1)

end Members

end StateEngine
