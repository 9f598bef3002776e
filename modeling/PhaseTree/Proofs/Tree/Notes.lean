import PhaseTree.Tree.Expr

set_option autoImplicit false

namespace PhaseTree

variable {A D V T : Type}

mutual
def Expr.withoutNotes : Expr A D V T → Expr Unit D V T
  | .lit _ value => .lit () value
  | .var _ name => .var () name
  | .range _ low high => .range () low.withoutNotes high.withoutNotes
  | .list _ items => .list () (exprsWithoutNotes items)
  | .binop _ op left right => .binop () op left.withoutNotes right.withoutNotes
  | .lambda _ param body => .lambda () param body.withoutNotes
  | .app _ func arg => .app () func.withoutNotes arg.withoutNotes
  | .guards _ branches => .guards () (guardsWithoutNotes branches)
  | .letIn _ defs body => .letIn () (defsWithoutNotes defs) body.withoutNotes
  | .case _ subject branches => .case () subject.withoutNotes (branchesWithoutNotes branches)
  | .data _ ctor args => .data () ctor (exprsWithoutNotes args)
  | .access _ e field => .access () e.withoutNotes field
  | .remove _ e field => .remove () e.withoutNotes field
  | .insert _ e field value => .insert () e.withoutNotes field value.withoutNotes
  | .modify _ e fields => .modify () e.withoutNotes (fieldsWithoutNotes fields)
  | .record _ fields => .record () (fieldsWithoutNotes fields)
  | .channel _ channel => .channel () (channelWithoutNotes channel)
  | .shader _ uid source => .shader () uid source
def Def.withoutNotes : Def A D V T → Def Unit D V T
  | .bind pattern body type => .bind pattern body.withoutNotes type
  | .foreign definition => .foreign definition
def exprsWithoutNotes : List (Expr A D V T) → List (Expr Unit D V T)
  | [] => []
  | e :: rest => e.withoutNotes :: exprsWithoutNotes rest
def guardsWithoutNotes : List (Expr A D V T × Expr A D V T) → List (Expr Unit D V T × Expr Unit D V T)
  | [] => []
  | (condition, result) :: rest =>
    (condition.withoutNotes, result.withoutNotes) :: guardsWithoutNotes rest
def defsWithoutNotes : List (Def A D V T) → List (Def Unit D V T)
  | [] => []
  | d :: rest => d.withoutNotes :: defsWithoutNotes rest
def branchesWithoutNotes : List (Pattern V × Expr A D V T) → List (Pattern V × Expr Unit D V T)
  | [] => []
  | (pattern, result) :: rest => (pattern, result.withoutNotes) :: branchesWithoutNotes rest
def fieldsWithoutNotes : List (String × Expr A D V T) → List (String × Expr Unit D V T)
  | [] => []
  | (field, value) :: rest => (field, value.withoutNotes) :: fieldsWithoutNotes rest
def channelWithoutNotes : Channel (Expr A D V T) T → Channel (Expr Unit D V T) T
  | .inbound name type => .inbound name type
  | .outbound name value type => .outbound name value.withoutNotes type
  | .task name value type => .task name value.withoutNotes type
end

theorem exprsWithoutNotes_eq (es : List (Expr A D V T)) :
    exprsWithoutNotes es = es.map Expr.withoutNotes := by
  induction es with
  | nil => simp [exprsWithoutNotes]
  | cons e es ih => simp [exprsWithoutNotes, ih]

theorem fieldsWithoutNotes_eq (fields : List (String × Expr A D V T)) :
    fieldsWithoutNotes fields = fields.map fun field => (field.1, field.2.withoutNotes) := by
  induction fields with
  | nil => simp [fieldsWithoutNotes]
  | cons field fields ih => simp [fieldsWithoutNotes, ih]

theorem Expr.withoutNotes_of_isInt {n : Int} {e : Expr A D V T} (h : e.isInt n = true) :
    e.withoutNotes = .lit () (.int n) := by
  unfold isInt at h
  split at h
  · rw [eq_of_beq h]
    rfl
  · contradiction

end PhaseTree
