import PhaseTree.Name.Basic
import PhaseTree.Span
import PhaseTree.Tree.Channel
import PhaseTree.Tree.Pattern
import PhaseTree.Tree.TypeExpr

set_option autoImplicit false

/-!
One tree for every phase of the compiler. The phases differ in four slots: the note `A` on every
node, the definitions `D` that a phase keeps in a form of its own, the names `V` and the types `T`.
-/

namespace PhaseTree

mutual
inductive Expr (A D V T : Type) where
  | lit (note : A) (value : Literal)
  | var (note : A) (name : V)
  /-- `[low..high]` -/
  | range (note : A) (low high : Expr A D V T)
  | list (note : A) (items : List (Expr A D V T))
  | binop (note : A) (operator : V) (left right : Expr A D V T)
  /-- One parameter; `\a b -> e` is two nested lambdas. -/
  | lambda (note : A) (param : Pattern V) (body : Expr A D V T)
  | app (note : A) (func arg : Expr A D V T)
  /-- Conditions with their results; the first condition that holds wins. -/
  | guards (note : A) (branches : List (Expr A D V T × Expr A D V T))
  | letIn (note : A) (defs : List (Def A D V T)) (body : Expr A D V T)
  | case (note : A) (subject : Expr A D V T) (branches : List (Pattern V × Expr A D V T))
  | data (note : A) (ctor : String) (args : List (Expr A D V T))
  | access (note : A) (record : Expr A D V T) (field : String)
  | remove (note : A) (record : Expr A D V T) (field : String)
  | insert (note : A) (record : Expr A D V T) (field : String) (value : Expr A D V T)
  | modify (note : A) (record : Expr A D V T) (fields : List (String × Expr A D V T))
  | record (note : A) (fields : List (String × Expr A D V T))
  | channel (note : A) (channel : Channel (Expr A D V T) T)
  | shader (note : A) (uid source : String)
inductive Def (A D V T : Type) where
  | bind (pattern : Pattern V) (body : Expr A D V T) (type : Option T)
  | foreign (definition : D)
end

abbrev ParsedExpr := Expr Span Empty RawName (TypeExpr RawName)

abbrev ParsedDef := Def Span Empty RawName (TypeExpr RawName)

abbrev CanonicalExpr := Expr Span Empty QualifiedName (TypeExpr QualifiedName)

abbrev CanonicalDef := Def Span Empty QualifiedName (TypeExpr QualifiedName)

namespace Expr

variable {A D V T : Type}

def note : Expr A D V T → A
  | lit a _ => a
  | var a _ => a
  | range a _ _ => a
  | list a _ => a
  | binop a _ _ _ => a
  | lambda a _ _ => a
  | app a _ _ => a
  | guards a _ => a
  | letIn a _ _ => a
  | case a _ _ => a
  | data a _ _ => a
  | access a _ _ => a
  | remove a _ _ => a
  | insert a _ _ _ => a
  | modify a _ _ => a
  | record a _ => a
  | channel a _ => a
  | shader a _ _ => a

def withNote (a : A) : Expr A D V T → Expr A D V T
  | lit _ x => lit a x
  | var _ x => var a x
  | range _ low high => range a low high
  | list _ items => list a items
  | binop _ op left right => binop a op left right
  | lambda _ param body => lambda a param body
  | app _ func arg => app a func arg
  | guards _ branches => guards a branches
  | letIn _ defs body => letIn a defs body
  | case _ subject branches => case a subject branches
  | data _ ctor args => data a ctor args
  | access _ e field => access a e field
  | remove _ e field => remove a e field
  | insert _ e field value => insert a e field value
  | modify _ e fields => modify a e fields
  | record _ fields => record a fields
  | channel _ c => channel a c
  | shader _ uid source => shader a uid source

def tuple (a : A) (components : List (Expr A D V T)) : Expr A D V T :=
  data a (Reserved.tupleName components.length) components

def isLambda : Expr A D V T → Bool
  | lambda _ _ _ => true
  | _ => false

def isApp : Expr A D V T → Bool
  | app _ _ _ => true
  | _ => false

def isRemove : Expr A D V T → Bool
  | remove _ _ _ => true
  | _ => false

def isInt (n : Int) : Expr A D V T → Bool
  | lit _ (.int value) => value == n
  | _ => false

def ctor? : Expr A D V T → Option String
  | data _ ctor _ => some ctor
  | _ => none

/-- Moves a node out: the node, and the empty list that takes its place under the same note. -/
def take (e : Expr A D V T) : Expr A D V T × Expr A D V T := (e, list e.note [])

/-- A `let` that keeps its definitions alive although nothing refers to them: its body names
something that no source text can name. -/
def keepAlive [Synthetic A] (defs : List (Def A D QualifiedName T)) : Expr A D QualifiedName T :=
  letIn Synthetic.marker defs (var Synthetic.marker (.builtIn Reserved.saveEnvironment))

theorem note_withNote (a : A) (e : Expr A D V T) : (e.withNote a).note = a := by cases e <;> rfl

theorem withNote_note (e : Expr A D V T) : e.withNote e.note = e := by cases e <;> rfl

end Expr

end PhaseTree
