import PhaseTree.Tree.Literal

set_option autoImplicit false

namespace PhaseTree

inductive Pattern (V : Type) where
  | data (name : V) (args : List (Pattern V))
  | record (fields : List String)
  /-- `inner as name` -/
  | named (name : String) (inner : Pattern V)
  | var (name : String)
  | any
  | lit (value : Literal)

namespace Pattern

variable {σ V W : Type}

mutual
/-- Converts the constructor names from left to right, outer ones first. -/
def convert (f : V → StateM σ W) : Pattern V → StateM σ (Pattern W)
  | data name args => do
    let name ← f name
    let args ← convertAll f args
    return data name args
  | record fields => return record fields
  | named name inner => do
    let inner ← inner.convert f
    return named name inner
  | var name => return var name
  | any => return any
  | lit value => return lit value
def convertAll (f : V → StateM σ W) : List (Pattern V) → StateM σ (List (Pattern W))
  | [] => return []
  | p :: rest => do
    let p ← p.convert f
    let rest ← convertAll f rest
    return p :: rest
end

mutual
def same [BEq V] : Pattern V → Pattern V → Bool
  | data name args, data name' args' => name == name' && sameAll args args'
  | record fields, record fields' => fields == fields'
  | named name inner, named name' inner' => name == name' && inner.same inner'
  | var name, var name' => name == name'
  | any, any => true
  | lit value, lit value' => value.same value'
  | _, _ => false
def sameAll [BEq V] : List (Pattern V) → List (Pattern V) → Bool
  | [], [] => true
  | p :: rest, p' :: rest' => p.same p' && sameAll rest rest'
  | _, _ => false
end

instance [BEq V] : BEq (Pattern V) := ⟨same⟩

theorem convertAll_eq (f : V → StateM σ W) (ps : List (Pattern V)) :
    convertAll f ps = ps.mapM (convert f) := by
  induction ps with
  | nil => simp [convertAll]
  | cons p ps ih => simp [convertAll, ih]

end Pattern

end PhaseTree
