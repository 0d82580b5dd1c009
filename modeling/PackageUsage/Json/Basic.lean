namespace PackageUsage

inductive Json where
  | null
  | bool (b : Bool)
  | int (n : Int)
  | real (x : Float)
  | text (s : String)
  | list (items : List Json)
  | object (members : List (String × Json))
deriving Inhabited

namespace Json

/-- Sets a member: a present key keeps its place, a new one goes to the end. -/
def setMember (key : String) (value : Json) : List (String × Json) → List (String × Json)
  | [] => [(key, value)]
  | (k, v) :: rest => if k = key then (key, value) :: rest else (k, v) :: setMember key value rest

/-- An object from members as written, the last of equal keys winning. -/
def ofMembers (members : List (String × Json)) : Json :=
  object (members.foldl (fun acc (k, v) => setMember k v acc) [])

def members : Json → List (String × Json)
  | object ms => ms
  | _ => []

def items : Json → List Json
  | list xs => xs
  | _ => []

def get? (j : Json) (key : String) : Option Json := j.members.lookup key

def isNull : Json → Bool
  | null => true
  | _ => false

def text? : Json → Option String
  | text s => some s
  | _ => none

def int? : Json → Option Int
  | int n => some n
  | _ => none

def isObject : Json → Bool
  | object _ => true
  | _ => false

def texts (xs : List String) : Json := list (xs.map text)

def nat (n : Nat) : Json := int n

/-- An optional value, absence being null. -/
def ofOption {α : Type} (f : α → Json) (x : Option α) : Json := (x.map f).getD null

end Json

end PackageUsage
