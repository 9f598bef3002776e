import PhaseTree.Tree.Expr

set_option autoImplicit false

/-!
Conversion of a tree from one phase to the next. A phase says what becomes of the content of each
slot; the traversal is here. It reaches a node before its children and the children from left to
right, and threads a state through all of it.
-/

namespace PhaseTree

/-- What a phase does to each slot, with a state of type `σ`. -/
structure Conversion (σ A D V T A' D' V' T' : Type) where
  note : A → StateM σ A'
  name : V → StateM σ V'
  type : T → StateM σ T'
  /-- Definitions that the phase keeps in a form of its own. -/
  foreign : D → StateM σ D'
  /-- Receives a definition of a `let` together with its traversal. -/
  definition : Def A D V T → StateM σ (Def A' D' V' T') → StateM σ (Def A' D' V' T')

variable {σ A D V T A' D' V' T' : Type}

mutual
def Expr.convert (c : Conversion σ A D V T A' D' V' T') :
    Expr A D V T → StateM σ (Expr A' D' V' T')
  | .lit a value => do
    let a ← c.note a
    return .lit a value
  | .var a name => do
    let a ← c.note a
    let name ← c.name name
    return .var a name
  | .range a low high => do
    let a ← c.note a
    let low ← low.convert c
    let high ← high.convert c
    return .range a low high
  | .list a items => do
    let a ← c.note a
    let items ← convertExprs c items
    return .list a items
  | .binop a op left right => do
    let a ← c.note a
    let op ← c.name op
    let left ← left.convert c
    let right ← right.convert c
    return .binop a op left right
  | .lambda a param body => do
    let a ← c.note a
    let param ← param.convert c.name
    let body ← body.convert c
    return .lambda a param body
  | .app a func arg => do
    let a ← c.note a
    let func ← func.convert c
    let arg ← arg.convert c
    return .app a func arg
  | .guards a branches => do
    let a ← c.note a
    let branches ← convertGuards c branches
    return .guards a branches
  | .letIn a defs body => do
    let a ← c.note a
    let defs ← convertDefs c defs
    let body ← body.convert c
    return .letIn a defs body
  | .case a subject branches => do
    let a ← c.note a
    let subject ← subject.convert c
    let branches ← convertBranches c branches
    return .case a subject branches
  | .data a ctor args => do
    let a ← c.note a
    let args ← convertExprs c args
    return .data a ctor args
  | .access a e field => do
    let a ← c.note a
    let e ← e.convert c
    return .access a e field
  | .remove a e field => do
    let a ← c.note a
    let e ← e.convert c
    return .remove a e field
  | .insert a e field value => do
    let a ← c.note a
    let e ← e.convert c
    let value ← value.convert c
    return .insert a e field value
  | .modify a e fields => do
    let a ← c.note a
    let e ← e.convert c
    let fields ← convertFields c fields
    return .modify a e fields
  | .record a fields => do
    let a ← c.note a
    let fields ← convertFields c fields
    return .record a fields
  | .channel a channel => do
    let a ← c.note a
    let channel ← convertChannel c channel
    return .channel a channel
  | .shader a uid source => do
    let a ← c.note a
    return .shader a uid source
/-- The names of the pattern come first, then the body, then the type. -/
def Def.convert (c : Conversion σ A D V T A' D' V' T') : Def A D V T → StateM σ (Def A' D' V' T')
  | .bind pattern body type => do
    let pattern ← pattern.convert c.name
    let body ← body.convert c
    match type with
    | none => return .bind pattern body none
    | some type => return .bind pattern body (some (← c.type type))
  | .foreign definition => do
    let definition ← c.foreign definition
    return .foreign definition
def convertExprs (c : Conversion σ A D V T A' D' V' T') :
    List (Expr A D V T) → StateM σ (List (Expr A' D' V' T'))
  | [] => return []
  | e :: rest => do
    let e ← e.convert c
    let rest ← convertExprs c rest
    return e :: rest
def convertDefs (c : Conversion σ A D V T A' D' V' T') :
    List (Def A D V T) → StateM σ (List (Def A' D' V' T'))
  | [] => return []
  | d :: rest => do
    let d ← c.definition d (d.convert c)
    let rest ← convertDefs c rest
    return d :: rest
def convertGuards (c : Conversion σ A D V T A' D' V' T') :
    List (Expr A D V T × Expr A D V T) → StateM σ (List (Expr A' D' V' T' × Expr A' D' V' T'))
  | [] => return []
  | (condition, result) :: rest => do
    let condition ← condition.convert c
    let result ← result.convert c
    let rest ← convertGuards c rest
    return (condition, result) :: rest
def convertBranches (c : Conversion σ A D V T A' D' V' T') :
    List (Pattern V × Expr A D V T) → StateM σ (List (Pattern V' × Expr A' D' V' T'))
  | [] => return []
  | (pattern, result) :: rest => do
    let pattern ← pattern.convert c.name
    let result ← result.convert c
    let rest ← convertBranches c rest
    return (pattern, result) :: rest
def convertFields (c : Conversion σ A D V T A' D' V' T') :
    List (String × Expr A D V T) → StateM σ (List (String × Expr A' D' V' T'))
  | [] => return []
  | (field, value) :: rest => do
    let value ← value.convert c
    let rest ← convertFields c rest
    return (field, value) :: rest
/-- The value of a channel comes before its type. -/
def convertChannel (c : Conversion σ A D V T A' D' V' T') :
    Channel (Expr A D V T) T → StateM σ (Channel (Expr A' D' V' T') T')
  | .inbound name type => do
    let type ← c.type type
    return .inbound name type
  | .outbound name value type => do
    let value ← value.convert c
    let type ← c.type type
    return .outbound name value type
  | .task name value type => do
    let value ← value.convert c
    let type ← c.type type
    return .task name value type
end

theorem convertExprs_eq (c : Conversion σ A D V T A' D' V' T') (es : List (Expr A D V T)) :
    convertExprs c es = es.mapM (Expr.convert c) := by
  induction es with
  | nil => simp [convertExprs]
  | cons e es ih => simp [convertExprs, ih]

theorem convertDefs_eq (c : Conversion σ A D V T A' D' V' T') (ds : List (Def A D V T)) :
    convertDefs c ds = ds.mapM fun d => c.definition d (d.convert c) := by
  induction ds with
  | nil => simp [convertDefs]
  | cons d ds ih => simp [convertDefs, ih]

end PhaseTree
