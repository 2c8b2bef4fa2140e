import GraphQL.Source

/-! Names and values. -/
namespace GraphQL

structure Name where
  origin : Option Origin
  value : String
  deriving DecidableEq

/-- A string with its value; the flag tells block strings from others. -/
structure StringValue where
  origin : Option Origin
  value : String
  isBlock : Bool
  deriving DecidableEq

mutual

/-- A value: a literal, a variable, or a list or an object of values. -/
inductive Value where
  | boolean (origin : Option Origin) (value : Bool)
  | enum (origin : Option Origin) (value : String)
  | float (origin : Option Origin) (value : Float)
  | int (origin : Option Origin) (value : Int32)
  | list (origin : Option Origin) (values : List Value)
  | null (origin : Option Origin)
  | object (origin : Option Origin) (fields : List ObjectField)
  | string (value : StringValue)
  | variable (origin : Option Origin) (name : Name)

structure ObjectField where
  origin : Option Origin
  name : Name
  value : Value

end

namespace Value

def origin? : Value → Option Origin
  | boolean o _ | enum o _ | float o _ | int o _ | list o _ | null o | object o _
  | .variable o _ => o
  | string s => s.origin

mutual

/-- A value without variables, at any depth. -/
def isConst : Value → Bool
  | .variable _ _ => false
  | list _ values => areConst values
  | object _ fields => fieldsAreConst fields
  | _ => true

/-- Values without variables. -/
def areConst : List Value → Bool
  | [] => true
  | v :: vs => v.isConst && areConst vs

/-- Fields whose values have no variables. -/
def fieldsAreConst : List ObjectField → Bool
  | [] => true
  | ⟨_, _, v⟩ :: fs => v.isConst && fieldsAreConst fs

end

end Value

instance : Inhabited Name := ⟨⟨none, ""⟩⟩
instance : Inhabited Value := ⟨.null none⟩

end GraphQL
