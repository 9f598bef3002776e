import PhaseTree.Tree.Conversion

set_option autoImplicit false

/-!
A tree taken apart: its shape, and the content of its slots in the order in which a conversion reaches
them. How far this looks into the definitions of a `let` is a parameter.
-/

namespace PhaseTree

/-- One slot with its content. For a definition that is entered or handed on as a whole, `B` says what
is recorded of it. -/
inductive Slot (A B D V T : Type) where
  | note (content : A)
  | name (content : V)
  | type (content : T)
  | foreign (content : D)
  | definition (content : B)

/-- What a definition under a `let` contributes, given what is found inside of it. -/
structure Depth (A B D V T : Type) where
  slots : Def A D V T → List (Slot A B D V T) → List (Slot A B D V T)
  shape : Def A D V T → Def Unit Unit Unit Unit → Def Unit Unit Unit Unit

namespace Depth

variable {A B D V T : Type}

def closed : Depth A (Def A D V T) D V T := ⟨fun d _ => [.definition d], fun _ _ => .foreign ()⟩

def opened (entry : Def A D V T → B) : Depth A B D V T :=
  ⟨fun d inside => .definition (entry d) :: inside, fun _ inside => inside⟩

end Depth

namespace Pattern

variable {V : Type}

mutual
def names : Pattern V → List V
  | data name args => name :: namesAll args
  | record _ => []
  | named _ inner => inner.names
  | var _ => []
  | any => []
  | lit _ => []
def namesAll : List (Pattern V) → List V
  | [] => []
  | p :: rest => p.names ++ namesAll rest
end

mutual
def shape : Pattern V → Pattern Unit
  | data _ args => data () (shapeAll args)
  | record fields => record fields
  | named name inner => named name inner.shape
  | var name => var name
  | any => any
  | lit value => lit value
def shapeAll : List (Pattern V) → List (Pattern Unit)
  | [] => []
  | p :: rest => p.shape :: shapeAll rest
end

end Pattern

namespace TypeExpr

variable {V : Type}

mutual
def names : TypeExpr V → List V
  | function argument result => argument.names ++ result.names
  | var _ => []
  | con name => [name]
  | app head args => head.names ++ namesAll args
  | record fields extension => namesFields fields ++ namesExtension extension
def namesAll : List (TypeExpr V) → List V
  | [] => []
  | t :: rest => t.names ++ namesAll rest
def namesFields : List (String × TypeExpr V) → List V
  | [] => []
  | (_, t) :: rest => t.names ++ namesFields rest
def namesExtension : Option (TypeExpr V) → List V
  | none => []
  | some t => t.names
end

mutual
def shape : TypeExpr V → TypeExpr Unit
  | function argument result => function argument.shape result.shape
  | var name => var name
  | con _ => con ()
  | app head args => app head.shape (shapeAll args)
  | record fields extension => record (shapeFields fields) (shapeExtension extension)
def shapeAll : List (TypeExpr V) → List (TypeExpr Unit)
  | [] => []
  | t :: rest => t.shape :: shapeAll rest
def shapeFields : List (String × TypeExpr V) → List (String × TypeExpr Unit)
  | [] => []
  | (field, t) :: rest => (field, t.shape) :: shapeFields rest
def shapeExtension : Option (TypeExpr V) → Option (TypeExpr Unit)
  | none => none
  | some t => some t.shape
end

end TypeExpr

variable {A B D V T : Type}

mutual
def Expr.slots (depth : Depth A B D V T) : Expr A D V T → List (Slot A B D V T)
  | .lit a _ => [.note a]
  | .var a name => [.note a, .name name]
  | .range a low high => .note a :: (low.slots depth ++ high.slots depth)
  | .list a items => .note a :: exprSlots depth items
  | .binop a op left right => .note a :: .name op :: (left.slots depth ++ right.slots depth)
  | .lambda a param body => .note a :: (param.names.map .name ++ body.slots depth)
  | .app a func arg => .note a :: (func.slots depth ++ arg.slots depth)
  | .guards a branches => .note a :: guardSlots depth branches
  | .letIn a defs body => .note a :: (defSlots depth defs ++ body.slots depth)
  | .case a subject branches => .note a :: (subject.slots depth ++ branchSlots depth branches)
  | .data a _ args => .note a :: exprSlots depth args
  | .access a e _ => .note a :: e.slots depth
  | .remove a e _ => .note a :: e.slots depth
  | .insert a e _ value => .note a :: (e.slots depth ++ value.slots depth)
  | .modify a e fields => .note a :: (e.slots depth ++ fieldSlots depth fields)
  | .record a fields => .note a :: fieldSlots depth fields
  | .channel a channel => .note a :: channelSlots depth channel
  | .shader a _ _ => [.note a]
def Def.slots (depth : Depth A B D V T) : Def A D V T → List (Slot A B D V T)
  | .bind pattern body type =>
    pattern.names.map .name ++ (body.slots depth ++ type.toList.map .type)
  | .foreign definition => [.foreign definition]
def exprSlots (depth : Depth A B D V T) : List (Expr A D V T) → List (Slot A B D V T)
  | [] => []
  | e :: rest => e.slots depth ++ exprSlots depth rest
def defSlots (depth : Depth A B D V T) : List (Def A D V T) → List (Slot A B D V T)
  | [] => []
  | d :: rest => depth.slots d (d.slots depth) ++ defSlots depth rest
def guardSlots (depth : Depth A B D V T) :
    List (Expr A D V T × Expr A D V T) → List (Slot A B D V T)
  | [] => []
  | (condition, result) :: rest =>
    condition.slots depth ++ (result.slots depth ++ guardSlots depth rest)
def branchSlots (depth : Depth A B D V T) :
    List (Pattern V × Expr A D V T) → List (Slot A B D V T)
  | [] => []
  | (pattern, result) :: rest =>
    pattern.names.map .name ++ (result.slots depth ++ branchSlots depth rest)
def fieldSlots (depth : Depth A B D V T) :
    List (String × Expr A D V T) → List (Slot A B D V T)
  | [] => []
  | (_, value) :: rest => value.slots depth ++ fieldSlots depth rest
def channelSlots (depth : Depth A B D V T) :
    Channel (Expr A D V T) T → List (Slot A B D V T)
  | .inbound _ type => [.type type]
  | .outbound _ value type => value.slots depth ++ [.type type]
  | .task _ value type => value.slots depth ++ [.type type]
end

mutual
def Expr.shape (depth : Depth A B D V T) : Expr A D V T → Expr Unit Unit Unit Unit
  | .lit _ value => .lit () value
  | .var _ _ => .var () ()
  | .range _ low high => .range () (low.shape depth) (high.shape depth)
  | .list _ items => .list () (exprShapes depth items)
  | .binop _ _ left right => .binop () () (left.shape depth) (right.shape depth)
  | .lambda _ param body => .lambda () param.shape (body.shape depth)
  | .app _ func arg => .app () (func.shape depth) (arg.shape depth)
  | .guards _ branches => .guards () (guardShapes depth branches)
  | .letIn _ defs body => .letIn () (defShapes depth defs) (body.shape depth)
  | .case _ subject branches => .case () (subject.shape depth) (branchShapes depth branches)
  | .data _ ctor args => .data () ctor (exprShapes depth args)
  | .access _ e field => .access () (e.shape depth) field
  | .remove _ e field => .remove () (e.shape depth) field
  | .insert _ e field value => .insert () (e.shape depth) field (value.shape depth)
  | .modify _ e fields => .modify () (e.shape depth) (fieldShapes depth fields)
  | .record _ fields => .record () (fieldShapes depth fields)
  | .channel _ channel => .channel () (channelShape depth channel)
  | .shader _ uid source => .shader () uid source
def Def.shape (depth : Depth A B D V T) : Def A D V T → Def Unit Unit Unit Unit
  | .bind pattern body type => .bind pattern.shape (body.shape depth) (type.map fun _ => ())
  | .foreign _ => .foreign ()
def exprShapes (depth : Depth A B D V T) : List (Expr A D V T) → List (Expr Unit Unit Unit Unit)
  | [] => []
  | e :: rest => e.shape depth :: exprShapes depth rest
def defShapes (depth : Depth A B D V T) : List (Def A D V T) → List (Def Unit Unit Unit Unit)
  | [] => []
  | d :: rest => depth.shape d (d.shape depth) :: defShapes depth rest
def guardShapes (depth : Depth A B D V T) : List (Expr A D V T × Expr A D V T) →
    List (Expr Unit Unit Unit Unit × Expr Unit Unit Unit Unit)
  | [] => []
  | (condition, result) :: rest =>
    (condition.shape depth, result.shape depth) :: guardShapes depth rest
def branchShapes (depth : Depth A B D V T) :
    List (Pattern V × Expr A D V T) → List (Pattern Unit × Expr Unit Unit Unit Unit)
  | [] => []
  | (pattern, result) :: rest => (pattern.shape, result.shape depth) :: branchShapes depth rest
def fieldShapes (depth : Depth A B D V T) :
    List (String × Expr A D V T) → List (String × Expr Unit Unit Unit Unit)
  | [] => []
  | (field, value) :: rest => (field, value.shape depth) :: fieldShapes depth rest
def channelShape (depth : Depth A B D V T) :
    Channel (Expr A D V T) T → Channel (Expr Unit Unit Unit Unit) Unit
  | .inbound name _ => .inbound name ()
  | .outbound name value _ => .outbound name (value.shape depth) ()
  | .task name value _ => .task name (value.shape depth) ()
end

end PhaseTree
