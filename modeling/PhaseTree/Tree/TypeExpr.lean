set_option autoImplicit false

namespace PhaseTree

inductive TypeExpr (V : Type) where
  | function (argument result : TypeExpr V)
  | var (name : String)
  | con (name : V)
  | app (head : TypeExpr V) (args : List (TypeExpr V))
  /-- Fields keep their written order; `extension` is the record that they are added to. -/
  | record (fields : List (String × TypeExpr V)) (extension : Option (TypeExpr V))

namespace TypeExpr

variable {σ V W : Type}

mutual
/-- Converts the constructor names from left to right; an extension comes after the fields. -/
def convert (f : V → StateM σ W) : TypeExpr V → StateM σ (TypeExpr W)
  | function argument result => do
    let argument ← argument.convert f
    let result ← result.convert f
    return function argument result
  | var name => return var name
  | con name => do
    let name ← f name
    return con name
  | app head args => do
    let head ← head.convert f
    let args ← convertAll f args
    return app head args
  | record fields extension => do
    let fields ← convertFields f fields
    let extension ← convertExtension f extension
    return record fields extension
def convertAll (f : V → StateM σ W) : List (TypeExpr V) → StateM σ (List (TypeExpr W))
  | [] => return []
  | t :: rest => do
    let t ← t.convert f
    let rest ← convertAll f rest
    return t :: rest
def convertFields (f : V → StateM σ W) :
    List (String × TypeExpr V) → StateM σ (List (String × TypeExpr W))
  | [] => return []
  | (field, t) :: rest => do
    let t ← t.convert f
    let rest ← convertFields f rest
    return (field, t) :: rest
def convertExtension (f : V → StateM σ W) : Option (TypeExpr V) → StateM σ (Option (TypeExpr W))
  | none => return none
  | some t => do
    let t ← t.convert f
    return some t
end

mutual
def same [BEq V] : TypeExpr V → TypeExpr V → Bool
  | function a r, function a' r' => a.same a' && r.same r'
  | var name, var name' => name == name'
  | con name, con name' => name == name'
  | app head args, app head' args' => head.same head' && sameAll args args'
  | record fields extension, record fields' extension' =>
    sameFields fields fields' && sameExtension extension extension'
  | _, _ => false
termination_by structural t => t
def sameAll [BEq V] : List (TypeExpr V) → List (TypeExpr V) → Bool
  | [], [] => true
  | t :: rest, t' :: rest' => t.same t' && sameAll rest rest'
  | _, _ => false
termination_by structural t => t
def sameFields [BEq V] : List (String × TypeExpr V) → List (String × TypeExpr V) → Bool
  | [], [] => true
  | (field, t) :: rest, (field', t') :: rest' => field == field' && t.same t' && sameFields rest rest'
  | _, _ => false
termination_by structural t => t
def sameExtension [BEq V] : Option (TypeExpr V) → Option (TypeExpr V) → Bool
  | none, none => true
  | some t, some t' => t.same t'
  | _, _ => false
termination_by structural t => t
end

instance [BEq V] : BEq (TypeExpr V) := ⟨same⟩

def isFunction : TypeExpr V → Bool
  | function _ _ => true
  | _ => false

/-- The constructor at the head of an application, if it is one. -/
def con? : TypeExpr V → Option V
  | con name => some name
  | _ => none

theorem convertAll_eq (f : V → StateM σ W) (ts : List (TypeExpr V)) :
    convertAll f ts = ts.mapM (convert f) := by
  induction ts with
  | nil => simp [convertAll]
  | cons t ts ih => simp [convertAll, ih]

end TypeExpr

end PhaseTree
