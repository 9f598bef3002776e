import PhaseTree.Name.Basic

set_option autoImplicit false

namespace PhaseTree

/-- The segments alone do not tell a path from one that goes on; the lengths do. -/
theorem ModulePath.all_zip_iff (found expected : List String) :
    ((found.zip expected).all fun (segment, other) => segment == other) = true ↔
      found <+: expected ∨ expected <+: found := by
  induction found generalizing expected with
  | nil => simp
  | cons s rest ih =>
    cases expected with
    | nil => simp
    | cons t ts =>
      rw [List.zip_cons_cons, List.all_cons, Bool.and_eq_true, ih, beq_iff_eq, List.cons_prefix_cons,
        List.cons_prefix_cons, eq_comm (a := t), and_or_left]

theorem ModulePath.isAt_iff (path : ModulePath) (segments : List String) :
    path.isAt segments = true ↔ path.segments = segments := by
  rw [isAt, Bool.and_eq_true, beq_iff_eq, all_zip_iff]
  constructor
  · rintro ⟨length, shorter | longer⟩
    · exact shorter.eq_of_length length
    · exact (longer.eq_of_length length.symm).symm
  · rintro rfl
    exact ⟨rfl, .inl List.prefix_rfl⟩

namespace QualifiedName

/-- Exactly the name `name` exported by the module at `path`. -/
def isFrom (path : List String) (name : String) (found : QualifiedName) : Bool :=
  match found.origin with
  | .exported home => home.isAt path && found.name == name
  | _ => false

def isMaybe : QualifiedName → Bool := isFrom ["Maybe"] "Maybe"

def isArray : QualifiedName → Bool := isFrom ["Array"] "Array"

def isTask : QualifiedName → Bool := isFrom ["Task"] "Task"

def isSignal : QualifiedName → Bool := isFrom ["Signal"] "Signal"

def isJson : QualifiedName → Bool := isFrom ["Json", "Encode"] "Value"

def isList : QualifiedName → Bool := isFrom ["List"] "List"

def primitives : List String := ["Int", "Float", "String", "Bool", "Char"]

def isPrimitive (found : QualifiedName) : Bool :=
  found.origin == .builtIn && primitives.contains found.name

def isTuple (found : QualifiedName) : Bool :=
  found.origin == .builtIn && Reserved.isTupleName found.name

theorem isFrom_iff (path : List String) (name : String) (found : QualifiedName) :
    found.isFrom path name = true ↔ found = exported path name := by
  rcases found with ⟨origin, text⟩
  cases origin with
  | exported home =>
    cases home
    simp [isFrom, exported, ModulePath.isAt_iff]
  | builtIn | enclosing => simp [isFrom, exported]

end QualifiedName

end PhaseTree
