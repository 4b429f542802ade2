import TypedClients.Keyed

namespace TypedClients

/-- A type before it is written. The fields of an object are optional unless marked. -/
inductive TypeExpr where
  | string
  | literal (value : String)
  | number
  | integer
  | boolean
  | null
  | dateTime
  | binary
  | array (item : TypeExpr)
  | object (fields : List (String × TypeExpr × Bool))
  | map (value : TypeExpr)
  | ref (name : String)
  | union (members : List TypeExpr)
  | intersection (members : List TypeExpr)
  | any
  | void
deriving Repr, Inhabited

namespace TypeExpr

mutual

def same : TypeExpr → TypeExpr → Bool
  | .string, .string => true
  | .literal a, .literal b => a == b
  | .number, .number => true
  | .integer, .integer => true
  | .boolean, .boolean => true
  | .null, .null => true
  | .dateTime, .dateTime => true
  | .binary, .binary => true
  | .array a, .array b => same a b
  | .object a, .object b => sameFields a b
  | .map a, .map b => same a b
  | .ref a, .ref b => a == b
  | .union a, .union b => sameList a b
  | .intersection a, .intersection b => sameList a b
  | .any, .any => true
  | .void, .void => true
  | _, _ => false

def sameList : List TypeExpr → List TypeExpr → Bool
  | [], [] => true
  | a :: as, b :: bs => same a b && sameList as bs
  | _, _ => false

def sameFields : List (String × TypeExpr × Bool) → List (String × TypeExpr × Bool) → Bool
  | [], [] => true
  | (n, a, r) :: as, (m, b, q) :: bs => n == m && same a b && r == q && sameFields as bs
  | _, _ => false

end

def isIn (t : TypeExpr) (ts : List TypeExpr) : Bool := ts.any (same · t)

def distinct : List TypeExpr → List TypeExpr
  | ts => ts.foldl (fun acc t => if t.isIn acc then acc else acc ++ [t]) []

def isVoid : TypeExpr → Bool
  | .void => true
  | _ => false

def ofMembers (none_ : TypeExpr) : List TypeExpr → TypeExpr
  | [] => none_
  | [t] => t
  | ts => .union ts

def withNull : TypeExpr → TypeExpr
  | .null => .null
  | .any => .any
  | .union ts => .union (if TypeExpr.null.isIn ts then ts else ts ++ [.null])
  | t => .union [t, .null]

mutual

def refs : TypeExpr → List String
  | .ref name => [name]
  | .array t => refs t
  | .map t => refs t
  | .union ts => refsOfList ts
  | .intersection ts => refsOfList ts
  | .object fields => refsOfFields fields
  | _ => []

def refsOfList : List TypeExpr → List String
  | [] => []
  | t :: rest => refs t ++ refsOfList rest

def refsOfFields : List (String × TypeExpr × Bool) → List String
  | [] => []
  | (_, t, _) :: rest => refs t ++ refsOfFields rest

end

def refNames (t : TypeExpr) : List String := Names.ofList t.refs

end TypeExpr

end TypedClients
