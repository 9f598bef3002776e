import PhaseTree.Print.Expr

set_option autoImplicit false

namespace PhaseTree

variable {A V : Type} [Named V]

namespace Pattern

mutual
def labels : Pattern V → List String
  | data name args => Named.display name :: labelsAll args
  | record fields => fields
  | named name inner => name :: inner.labels
  | var name => [name]
  | any => []
  | lit _ => []
def labelsAll : List (Pattern V) → List String
  | [] => []
  | p :: rest => p.labels ++ labelsAll rest
end

end Pattern

namespace TypeExpr

mutual
def labels : TypeExpr V → List String
  | function argument result => argument.labels ++ result.labels
  | var name => [name]
  | con name => [Named.display name]
  | app head args => head.labels ++ labelsAll args
  | record fields extension => labelsFields fields ++ labelsExtension extension
def labelsAll : List (TypeExpr V) → List String
  | [] => []
  | t :: rest => t.labels ++ labelsAll rest
def labelsFields : List (String × TypeExpr V) → List String
  | [] => []
  | (field, t) :: rest => field :: (t.labels ++ labelsFields rest)
def labelsExtension : Option (TypeExpr V) → List String
  | none => []
  | some t => t.labels
end

end TypeExpr

mutual
def Expr.labels : Expr A Empty V (TypeExpr V) → List String
  | .lit _ _ => []
  | .var _ name => [Named.display name]
  | .range _ low high => low.labels ++ high.labels
  | .list _ items => exprLabels items
  | .binop _ op left right => Named.display op :: (left.labels ++ right.labels)
  | .lambda _ param body => param.labels ++ body.labels
  | .app _ func arg => func.labels ++ arg.labels
  | .guards _ branches => guardLabels branches
  | .letIn _ defs body => defLabels defs ++ body.labels
  | .case _ subject branches => subject.labels ++ branchLabels branches
  | .data _ ctor args => ctor :: exprLabels args
  | .access _ e field => field :: e.labels
  | .remove _ e field => field :: e.labels
  | .insert _ e field value => field :: (e.labels ++ value.labels)
  | .modify _ e fields => e.labels ++ fieldLabels fields
  | .record _ fields => fieldLabels fields
  | .channel _ channel => [channel.name]
  | .shader _ _ _ => []
termination_by structural e => e
def Def.labels : Def A Empty V (TypeExpr V) → List String
  | .bind pattern body type =>
    pattern.labels ++ (body.labels ++ TypeExpr.labelsExtension type)
  | .foreign definition => definition.elim
termination_by structural d => d
def exprLabels : List (Expr A Empty V (TypeExpr V)) → List String
  | [] => []
  | e :: rest => e.labels ++ exprLabels rest
termination_by structural es => es
def defLabels : List (Def A Empty V (TypeExpr V)) → List String
  | [] => []
  | d :: rest => d.labels ++ defLabels rest
termination_by structural defs => defs
def guardLabels : List (Expr A Empty V (TypeExpr V) × Expr A Empty V (TypeExpr V)) → List String
  | [] => []
  | (condition, result) :: rest => condition.labels ++ (result.labels ++ guardLabels rest)
termination_by structural branches => branches
def branchLabels : List (Pattern V × Expr A Empty V (TypeExpr V)) → List String
  | [] => []
  | (pattern, result) :: rest => pattern.labels ++ (result.labels ++ branchLabels rest)
termination_by structural branches => branches
def fieldLabels : List (String × Expr A Empty V (TypeExpr V)) → List String
  | [] => []
  | (field, value) :: rest => field :: (value.labels ++ fieldLabels rest)
termination_by structural fields => fields
end

end PhaseTree
