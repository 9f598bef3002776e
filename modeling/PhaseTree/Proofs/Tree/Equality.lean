import Mathlib.Tactic.Tauto
import PhaseTree.Proofs.Number.Equality
import PhaseTree.Tree.Equality

set_option autoImplicit false

namespace PhaseTree

namespace Literal

def isNaN : Literal → Bool
  | float x => x.isNaN
  | _ => false

def unsigned : Literal → Literal
  | float x => float x.unsignedZero
  | value => value

end Literal

def NoNaN (values : List Literal) : Prop := ∀ value ∈ values, value.isNaN = false

/-- What equality comes down to for two parts with these literals, `identical` being said of the parts without
signs of zeros. -/
def Agree (values values' : List Literal) (identical : Prop) : Prop :=
  NoNaN values ∧ NoNaN values' ∧ identical

section

variable {l l' m m' : List Literal} {p q : Prop}

theorem agree_append : Agree l l' p ∧ Agree m m' q ↔ Agree (l ++ m) (l' ++ m') (p ∧ q) := by
  simp only [Agree, NoNaN, List.forall_mem_append]
  tauto

theorem eq_and_agree {X : Type} {x y : X} : x = y ∧ Agree l l' q ↔ Agree l l' (x = y ∧ q) := by
  simp only [Agree]
  tauto

@[simp] theorem agree_nil : Agree [] [] p ↔ p := by simp [Agree, NoNaN]

@[simp] theorem agree_false : Agree l l' False ↔ False := by simp [Agree]

theorem agree_of_apart {same : Bool} (h : same = false) (apart : ¬ p) : same = true ↔ Agree l l' p := by
  simp [Agree, h, apart]

end

theorem Literal.same_iff (a b : Literal) :
    a.same b = true ↔ Agree [a] [b] (a.unsigned = b.unsigned) := by
  simp only [Agree, NoNaN, List.forall_mem_singleton]
  cases a with
  | float x =>
    cases b with
    | float y =>
      simp [same, isNaN, unsigned, Binary64.same_iff, Binary64.unsignedZero_eq_iff]
    | _ => simp [same, unsigned]
  | _ => cases b <;> simp [same, isNaN, unsigned]

namespace Pattern

variable {V : Type}

mutual
def literals : Pattern V → List Literal
  | data _ args => literalsAll args
  | record _ => []
  | named _ inner => inner.literals
  | var _ => []
  | any => []
  | lit value => [value]
def literalsAll : List (Pattern V) → List Literal
  | [] => []
  | p :: rest => p.literals ++ literalsAll rest
end

mutual
def unsigned : Pattern V → Pattern V
  | data name args => data name (unsignedAll args)
  | record fields => record fields
  | named name inner => named name inner.unsigned
  | var name => var name
  | any => any
  | lit value => lit value.unsigned
def unsignedAll : List (Pattern V) → List (Pattern V)
  | [] => []
  | p :: rest => p.unsigned :: unsignedAll rest
end

variable [BEq V]

mutual
theorem same_iff [LawfulBEq V] (p p' : Pattern V) :
    p.same p' = true ↔ Agree p.literals p'.literals (p.unsigned = p'.unsigned) := by
  cases p with
  | data name args =>
    cases p' with
    | data name' args' =>
      simp only [same, Bool.and_eq_true, beq_iff_eq, sameAll_iff args args', literals, unsigned,
        data.injEq, eq_and_agree]
    | _ => simp [same, unsigned]
  | record fields => cases p' <;> simp [same, literals, unsigned]
  | named name inner =>
    cases p' with
    | named name' inner' =>
      simp only [same, Bool.and_eq_true, beq_iff_eq, inner.same_iff inner', literals, unsigned,
        named.injEq, eq_and_agree]
    | _ => simp [same, unsigned]
  | var name => cases p' <;> simp [same, literals, unsigned]
  | any => cases p' <;> simp [same, literals, unsigned]
  | lit value =>
    cases p' with
    | lit value' => rw [same, value.same_iff, literals, literals, unsigned, unsigned, lit.injEq]
    | _ => simp [same, unsigned]
theorem sameAll_iff [LawfulBEq V] (ps ps' : List (Pattern V)) : sameAll ps ps' = true ↔
    Agree (literalsAll ps) (literalsAll ps') (unsignedAll ps = unsignedAll ps') := by
  cases ps with
  | nil => cases ps' <;> simp [sameAll, literalsAll, unsignedAll]
  | cons p ps =>
    cases ps' with
    | nil => simp [sameAll, unsignedAll]
    | cons p' ps' =>
      simp only [sameAll, Bool.and_eq_true, p.same_iff p', sameAll_iff ps ps', literalsAll,
        unsignedAll, List.cons.injEq, agree_append]
end

end Pattern

namespace TypeExpr

variable {V : Type} [BEq V]

mutual
theorem same_iff [LawfulBEq V] (t t' : TypeExpr V) : t.same t' = true ↔ t = t' := by
  cases t with
  | function argument result =>
    cases t' with
    | function argument' result' =>
      rw [same, Bool.and_eq_true, argument.same_iff, result.same_iff, function.injEq]
    | _ => simp [same]
  | var name => cases t' <;> simp [same]
  | con name => cases t' <;> simp [same]
  | app head args =>
    cases t' with
    | app head' args' =>
      rw [same, Bool.and_eq_true, head.same_iff, sameAll_iff, app.injEq]
    | _ => simp [same]
  | record fields extension =>
    cases t' with
    | record fields' extension' =>
      rw [same, Bool.and_eq_true, sameFields_iff, sameExtension_iff, record.injEq]
    | _ => simp [same]
theorem sameAll_iff [LawfulBEq V] (ts ts' : List (TypeExpr V)) : sameAll ts ts' = true ↔ ts = ts' := by
  cases ts with
  | nil => cases ts' <;> simp [sameAll]
  | cons t ts =>
    cases ts' with
    | nil => simp [sameAll]
    | cons t' ts' => rw [sameAll, Bool.and_eq_true, t.same_iff, sameAll_iff, List.cons.injEq]
theorem sameFields_iff [LawfulBEq V] (fields fields' : List (String × TypeExpr V)) :
    sameFields fields fields' = true ↔ fields = fields' := by
  rcases fields with _ | ⟨⟨field, t⟩, fields⟩
  · cases fields' <;> simp [sameFields]
  · rcases fields' with _ | ⟨⟨field', t'⟩, fields'⟩
    · simp [sameFields]
    · rw [sameFields, Bool.and_eq_true, Bool.and_eq_true, beq_iff_eq, t.same_iff, sameFields_iff,
        List.cons.injEq, Prod.mk.injEq]
theorem sameExtension_iff [LawfulBEq V] (extension extension' : Option (TypeExpr V)) :
    sameExtension extension extension' = true ↔ extension = extension' := by
  cases extension with
  | none => cases extension' <;> simp [sameExtension]
  | some t =>
    cases extension' with
    | none => simp [sameExtension]
    | some t' => rw [sameExtension, t.same_iff, Option.some.injEq]
end

instance [LawfulBEq V] : LawfulBEq (TypeExpr V) where
  rfl {t} := (same_iff t t).2 rfl
  eq_of_beq {t t'} := (same_iff t t').1

end TypeExpr

section

variable {A D V T : Type}

mutual
def Expr.literals : Expr A D V T → List Literal
  | .lit _ value => [value]
  | .var _ _ => []
  | .range _ low high => low.literals ++ high.literals
  | .list _ items => exprLiterals items
  | .binop _ _ left right => left.literals ++ right.literals
  | .lambda _ param body => param.literals ++ body.literals
  | .app _ func arg => func.literals ++ arg.literals
  | .guards _ branches => guardLiterals branches
  | .letIn _ defs body => defLiterals defs ++ body.literals
  | .case _ subject branches => subject.literals ++ branchLiterals branches
  | .data _ _ args => exprLiterals args
  | .access _ record _ => record.literals
  | .remove _ record _ => record.literals
  | .insert _ record _ value => record.literals ++ value.literals
  | .modify _ record fields => record.literals ++ fieldLiterals fields
  | .record _ fields => fieldLiterals fields
  | .channel _ channel => channelLiterals channel
  | .shader _ _ _ => []
def Def.literals : Def A D V T → List Literal
  | .bind pattern body _ => pattern.literals ++ body.literals
  | .foreign _ => []
def exprLiterals : List (Expr A D V T) → List Literal
  | [] => []
  | e :: rest => e.literals ++ exprLiterals rest
def guardLiterals : List (Expr A D V T × Expr A D V T) → List Literal
  | [] => []
  | (condition, result) :: rest => condition.literals ++ (result.literals ++ guardLiterals rest)
def defLiterals : List (Def A D V T) → List Literal
  | [] => []
  | d :: rest => d.literals ++ defLiterals rest
def branchLiterals : List (Pattern V × Expr A D V T) → List Literal
  | [] => []
  | (pattern, result) :: rest => pattern.literals ++ (result.literals ++ branchLiterals rest)
def fieldLiterals : List (String × Expr A D V T) → List Literal
  | [] => []
  | (_, value) :: rest => value.literals ++ fieldLiterals rest
def channelLiterals : Channel (Expr A D V T) T → List Literal
  | .inbound _ _ => []
  | .outbound _ value _ => value.literals
  | .task _ value _ => value.literals
end

mutual
def Expr.unsigned : Expr A D V T → Expr A D V T
  | .lit a value => .lit a value.unsigned
  | .var a name => .var a name
  | .range a low high => .range a low.unsigned high.unsigned
  | .list a items => .list a (unsignedExprs items)
  | .binop a op left right => .binop a op left.unsigned right.unsigned
  | .lambda a param body => .lambda a param.unsigned body.unsigned
  | .app a func arg => .app a func.unsigned arg.unsigned
  | .guards a branches => .guards a (unsignedGuards branches)
  | .letIn a defs body => .letIn a (unsignedDefs defs) body.unsigned
  | .case a subject branches => .case a subject.unsigned (unsignedBranches branches)
  | .data a ctor args => .data a ctor (unsignedExprs args)
  | .access a record field => .access a record.unsigned field
  | .remove a record field => .remove a record.unsigned field
  | .insert a record field value => .insert a record.unsigned field value.unsigned
  | .modify a record fields => .modify a record.unsigned (unsignedFields fields)
  | .record a fields => .record a (unsignedFields fields)
  | .channel a channel => .channel a (unsignedChannel channel)
  | .shader a uid source => .shader a uid source
def Def.unsigned : Def A D V T → Def A D V T
  | .bind pattern body type => .bind pattern.unsigned body.unsigned type
  | .foreign definition => .foreign definition
def unsignedExprs : List (Expr A D V T) → List (Expr A D V T)
  | [] => []
  | e :: rest => e.unsigned :: unsignedExprs rest
def unsignedGuards :
    List (Expr A D V T × Expr A D V T) → List (Expr A D V T × Expr A D V T)
  | [] => []
  | (condition, result) :: rest => (condition.unsigned, result.unsigned) :: unsignedGuards rest
def unsignedDefs : List (Def A D V T) → List (Def A D V T)
  | [] => []
  | d :: rest => d.unsigned :: unsignedDefs rest
def unsignedBranches : List (Pattern V × Expr A D V T) → List (Pattern V × Expr A D V T)
  | [] => []
  | (pattern, result) :: rest => (pattern.unsigned, result.unsigned) :: unsignedBranches rest
def unsignedFields : List (String × Expr A D V T) → List (String × Expr A D V T)
  | [] => []
  | (field, value) :: rest => (field, value.unsigned) :: unsignedFields rest
def unsignedChannel : Channel (Expr A D V T) T → Channel (Expr A D V T) T
  | .inbound name type => .inbound name type
  | .outbound name value type => .outbound name value.unsigned type
  | .task name value type => .task name value.unsigned type
end

end

section

variable {A D V T : Type} [BEq A] [BEq D] [BEq V] [BEq T]

theorem Expr.same_iff_of_apart {e e' : Expr A D V T} (h : e.same e' = false)
    (apart : (e.unsigned.ctorIdx == e'.unsigned.ctorIdx) = false) :
    e.same e' = true ↔ Agree e.literals e'.literals (e.unsigned = e'.unsigned) :=
  agree_of_apart h fun same => by simp [same] at apart

-- The induction is on the first tree, so each case first asks whether the second one has the same form.
-- A field name or type that stands behind a subtree is compared before it: there two conditions change places.
mutual
theorem Expr.same_iff [LawfulBEq A] [LawfulBEq D] [LawfulBEq V] [LawfulBEq T] (e e' : Expr A D V T) :
    e.same e' = true ↔ Agree e.literals e'.literals (e.unsigned = e'.unsigned) := by
  cases e with
  | lit a value =>
    cases e' with
    | lit a' value' =>
      simp only [Expr.same, Bool.and_eq_true, beq_iff_eq, Literal.same_iff, Expr.literals,
        Expr.unsigned, Expr.lit.injEq, eq_and_agree]
    | _ => exact Expr.same_iff_of_apart rfl rfl
  | var a name => cases e' <;> simp [Expr.same, Expr.literals, Expr.unsigned]
  | range a low high =>
    cases e' with
    | range a' low' high' =>
      simp only [Expr.same, Bool.and_eq_true, beq_iff_eq, low.same_iff low', high.same_iff high',
        Expr.literals, Expr.unsigned, Expr.range.injEq, and_assoc, eq_and_agree, agree_append]
    | _ => exact Expr.same_iff_of_apart rfl rfl
  | list a items =>
    cases e' with
    | list a' items' =>
      simp only [Expr.same, Bool.and_eq_true, beq_iff_eq, sameExprs_iff items items', Expr.literals,
        Expr.unsigned, Expr.list.injEq, eq_and_agree]
    | _ => exact Expr.same_iff_of_apart rfl rfl
  | binop a op left right =>
    cases e' with
    | binop a' op' left' right' =>
      simp only [Expr.same, Bool.and_eq_true, beq_iff_eq, left.same_iff left',
        right.same_iff right', Expr.literals, Expr.unsigned, Expr.binop.injEq, and_assoc,
        eq_and_agree, agree_append]
    | _ => exact Expr.same_iff_of_apart rfl rfl
  | lambda a param body =>
    cases e' with
    | lambda a' param' body' =>
      simp only [Expr.same, Bool.and_eq_true, beq_iff_eq, param.same_iff, body.same_iff body',
        Expr.literals, Expr.unsigned, Expr.lambda.injEq, and_assoc, eq_and_agree, agree_append]
    | _ => exact Expr.same_iff_of_apart rfl rfl
  | app a func arg =>
    cases e' with
    | app a' func' arg' =>
      simp only [Expr.same, Bool.and_eq_true, beq_iff_eq, func.same_iff func', arg.same_iff arg',
        Expr.literals, Expr.unsigned, Expr.app.injEq, and_assoc, eq_and_agree, agree_append]
    | _ => exact Expr.same_iff_of_apart rfl rfl
  | guards a branches =>
    cases e' with
    | guards a' branches' =>
      simp only [Expr.same, Bool.and_eq_true, beq_iff_eq, sameGuards_iff branches branches',
        Expr.literals, Expr.unsigned, Expr.guards.injEq, eq_and_agree]
    | _ => exact Expr.same_iff_of_apart rfl rfl
  | letIn a defs body =>
    cases e' with
    | letIn a' defs' body' =>
      simp only [Expr.same, Bool.and_eq_true, beq_iff_eq, sameDefs_iff defs defs',
        body.same_iff body', Expr.literals, Expr.unsigned, Expr.letIn.injEq, and_assoc,
        eq_and_agree, agree_append]
    | _ => exact Expr.same_iff_of_apart rfl rfl
  | case a subject branches =>
    cases e' with
    | case a' subject' branches' =>
      simp only [Expr.same, Bool.and_eq_true, beq_iff_eq, subject.same_iff subject',
        sameBranches_iff branches branches', Expr.literals, Expr.unsigned, Expr.case.injEq,
        and_assoc, eq_and_agree, agree_append]
    | _ => exact Expr.same_iff_of_apart rfl rfl
  | data a ctor args =>
    cases e' with
    | data a' ctor' args' =>
      simp only [Expr.same, Bool.and_eq_true, beq_iff_eq, sameExprs_iff args args', Expr.literals,
        Expr.unsigned, Expr.data.injEq, and_assoc, eq_and_agree]
    | _ => exact Expr.same_iff_of_apart rfl rfl
  | access a record field =>
    cases e' with
    | access a' record' field' =>
      simp only [Expr.same, Bool.and_eq_true, beq_iff_eq, record.same_iff record', Expr.literals,
        Expr.unsigned, Expr.access.injEq, and_assoc, eq_and_agree]
      rw [and_comm (a := field = field')]
    | _ => exact Expr.same_iff_of_apart rfl rfl
  | remove a record field =>
    cases e' with
    | remove a' record' field' =>
      simp only [Expr.same, Bool.and_eq_true, beq_iff_eq, record.same_iff record', Expr.literals,
        Expr.unsigned, Expr.remove.injEq, and_assoc, eq_and_agree]
      rw [and_comm (a := field = field')]
    | _ => exact Expr.same_iff_of_apart rfl rfl
  | insert a record field value =>
    cases e' with
    | insert a' record' field' value' =>
      simp only [Expr.same, Bool.and_eq_true, beq_iff_eq, record.same_iff record',
        value.same_iff value', Expr.literals, Expr.unsigned, Expr.insert.injEq, and_assoc,
        eq_and_agree, agree_append]
      rw [and_left_comm (a := field = field')]
    | _ => exact Expr.same_iff_of_apart rfl rfl
  | modify a record fields =>
    cases e' with
    | modify a' record' fields' =>
      simp only [Expr.same, Bool.and_eq_true, beq_iff_eq, record.same_iff record',
        sameFields_iff fields fields', Expr.literals, Expr.unsigned, Expr.modify.injEq, and_assoc,
        eq_and_agree, agree_append]
    | _ => exact Expr.same_iff_of_apart rfl rfl
  | record a fields =>
    cases e' with
    | record a' fields' =>
      simp only [Expr.same, Bool.and_eq_true, beq_iff_eq, sameFields_iff fields fields',
        Expr.literals, Expr.unsigned, Expr.record.injEq, eq_and_agree]
    | _ => exact Expr.same_iff_of_apart rfl rfl
  | channel a channel =>
    cases e' with
    | channel a' channel' =>
      simp only [Expr.same, Bool.and_eq_true, beq_iff_eq, sameChannels_iff channel channel',
        Expr.literals, Expr.unsigned, Expr.channel.injEq, eq_and_agree]
    | _ => exact Expr.same_iff_of_apart rfl rfl
  | shader a uid source => cases e' <;> simp [Expr.same, Expr.literals, Expr.unsigned, and_assoc]
termination_by structural e
theorem Def.same_iff [LawfulBEq A] [LawfulBEq D] [LawfulBEq V] [LawfulBEq T] (d d' : Def A D V T) :
    d.same d' = true ↔ Agree d.literals d'.literals (d.unsigned = d'.unsigned) := by
  cases d with
  | bind pattern body type =>
    cases d' with
    | bind pattern' body' type' =>
      simp only [Def.same, Bool.and_eq_true, beq_iff_eq, pattern.same_iff, body.same_iff body',
        Def.literals, Def.unsigned, Def.bind.injEq, and_assoc, eq_and_agree, agree_append]
      rw [and_comm (a := type = type')]
    | foreign _ => simp [Def.same, Def.unsigned]
  | foreign definition => cases d' <;> simp [Def.same, Def.literals, Def.unsigned]
termination_by structural d
theorem sameExprs_iff [LawfulBEq A] [LawfulBEq D] [LawfulBEq V] [LawfulBEq T]
    (es es' : List (Expr A D V T)) : sameExprs es es' = true ↔
    Agree (exprLiterals es) (exprLiterals es') (unsignedExprs es = unsignedExprs es') := by
  cases es with
  | nil => cases es' <;> simp [sameExprs, exprLiterals, unsignedExprs]
  | cons e es =>
    cases es' with
    | nil => simp [sameExprs, unsignedExprs]
    | cons e' es' =>
      simp only [sameExprs, Bool.and_eq_true, e.same_iff e', sameExprs_iff es es', exprLiterals,
        unsignedExprs, List.cons.injEq, agree_append]
termination_by structural es
theorem sameGuards_iff [LawfulBEq A] [LawfulBEq D] [LawfulBEq V] [LawfulBEq T]
    (branches branches' : List (Expr A D V T × Expr A D V T)) :
    sameGuards branches branches' = true ↔ Agree (guardLiterals branches) (guardLiterals branches')
      (unsignedGuards branches = unsignedGuards branches') := by
  rcases branches with _ | ⟨⟨condition, result⟩, branches⟩
  · cases branches' <;> simp [sameGuards, guardLiterals, unsignedGuards]
  · rcases branches' with _ | ⟨⟨condition', result'⟩, branches'⟩
    · simp [sameGuards, unsignedGuards]
    · simp only [sameGuards, Bool.and_eq_true, condition.same_iff condition',
        result.same_iff result', sameGuards_iff branches branches', guardLiterals, unsignedGuards,
        List.cons.injEq, Prod.mk.injEq, and_assoc, agree_append, List.append_assoc]
termination_by structural branches
theorem sameDefs_iff [LawfulBEq A] [LawfulBEq D] [LawfulBEq V] [LawfulBEq T]
    (defs defs' : List (Def A D V T)) : sameDefs defs defs' = true ↔
    Agree (defLiterals defs) (defLiterals defs') (unsignedDefs defs = unsignedDefs defs') := by
  cases defs with
  | nil => cases defs' <;> simp [sameDefs, defLiterals, unsignedDefs]
  | cons d defs =>
    cases defs' with
    | nil => simp [sameDefs, unsignedDefs]
    | cons d' defs' =>
      simp only [sameDefs, Bool.and_eq_true, d.same_iff d', sameDefs_iff defs defs', defLiterals,
        unsignedDefs, List.cons.injEq, agree_append]
termination_by structural defs
theorem sameBranches_iff [LawfulBEq A] [LawfulBEq D] [LawfulBEq V] [LawfulBEq T]
    (branches branches' : List (Pattern V × Expr A D V T)) :
    sameBranches branches branches' = true ↔
      Agree (branchLiterals branches) (branchLiterals branches')
        (unsignedBranches branches = unsignedBranches branches') := by
  rcases branches with _ | ⟨⟨pattern, result⟩, branches⟩
  · cases branches' <;> simp [sameBranches, branchLiterals, unsignedBranches]
  · rcases branches' with _ | ⟨⟨pattern', result'⟩, branches'⟩
    · simp [sameBranches, unsignedBranches]
    · simp only [sameBranches, Bool.and_eq_true, pattern.same_iff, result.same_iff result',
        sameBranches_iff branches branches', branchLiterals, unsignedBranches, List.cons.injEq,
        Prod.mk.injEq, and_assoc, agree_append, List.append_assoc]
termination_by structural branches
theorem sameFields_iff [LawfulBEq A] [LawfulBEq D] [LawfulBEq V] [LawfulBEq T]
    (fields fields' : List (String × Expr A D V T)) :
    sameFields fields fields' = true ↔ Agree (fieldLiterals fields) (fieldLiterals fields')
      (unsignedFields fields = unsignedFields fields') := by
  rcases fields with _ | ⟨⟨field, value⟩, fields⟩
  · cases fields' <;> simp [sameFields, fieldLiterals, unsignedFields]
  · rcases fields' with _ | ⟨⟨field', value'⟩, fields'⟩
    · simp [sameFields, unsignedFields]
    · simp only [sameFields, Bool.and_eq_true, beq_iff_eq, value.same_iff value',
        sameFields_iff fields fields', fieldLiterals, unsignedFields, List.cons.injEq,
        Prod.mk.injEq, and_assoc, eq_and_agree, agree_append]
termination_by structural fields
theorem sameChannels_iff [LawfulBEq A] [LawfulBEq D] [LawfulBEq V] [LawfulBEq T]
    (c c' : Channel (Expr A D V T) T) : sameChannels c c' = true ↔
    Agree (channelLiterals c) (channelLiterals c') (unsignedChannel c = unsignedChannel c') := by
  cases c with
  | inbound name type => cases c' <;> simp [sameChannels, channelLiterals, unsignedChannel]
  | outbound name value type =>
    cases c' with
    | outbound name' value' type' =>
      simp only [sameChannels, Bool.and_eq_true, beq_iff_eq, value.same_iff value', channelLiterals,
        unsignedChannel, Channel.outbound.injEq, and_assoc, eq_and_agree]
      rw [and_comm (a := type = type')]
    | _ => simp [sameChannels, unsignedChannel]
  | task name value type =>
    cases c' with
    | task name' value' type' =>
      simp only [sameChannels, Bool.and_eq_true, beq_iff_eq, value.same_iff value', channelLiterals,
        unsignedChannel, Channel.task.injEq, and_assoc, eq_and_agree]
      rw [and_comm (a := type = type')]
    | _ => simp [sameChannels, unsignedChannel]
termination_by structural c
end

end

/-- Equality that falls short of an equivalence only for parts with a NaN among their literals. -/
structure EquivalenceButNaN (X : Type) [BEq X] (literals : X → List Literal) : Prop
    extends PartialEquivBEq X where
  refl_iff : ∀ x : X, (x == x) = true ↔ ∀ value ∈ literals x, value.isNaN = false

theorem equivalenceButNaN_of_same_iff {X : Type} [BEq X] {literals : X → List Literal}
    {unsigned : X → X}
    (same_iff : ∀ x y : X, (x == y) = true ↔ Agree (literals x) (literals y) (unsigned x = unsigned y)) :
    EquivalenceButNaN X literals where
  symm {x y} h := by
    obtain ⟨hx, hy, identical⟩ := (same_iff x y).1 h
    exact (same_iff y x).2 ⟨hy, hx, identical.symm⟩
  trans {x y z} hxy hyz := by
    obtain ⟨hx, -, identical⟩ := (same_iff x y).1 hxy
    obtain ⟨-, hz, identical'⟩ := (same_iff y z).1 hyz
    exact (same_iff x z).2 ⟨hx, hz, identical.trans identical'⟩
  refl_iff x := (same_iff x x).trans ⟨fun h => h.1, fun h => ⟨h, h, rfl⟩⟩

/-- The equality of parsed trees and of all their parts. -/
theorem parsed_equivalenceButNaN :
    EquivalenceButNaN ParsedExpr Expr.literals ∧
    EquivalenceButNaN ParsedDef Def.literals ∧
    EquivalenceButNaN (Pattern RawName) Pattern.literals ∧
    EquivalenceButNaN (Channel ParsedExpr (TypeExpr RawName)) channelLiterals ∧
    EquivalenceButNaN Literal (fun value => [value]) ∧
    ∀ x y, (Literal.float x == .float y) = true ↔
      (x.isInfinite = true ∧ y.isInfinite = true ∧ x.isNegative = y.isNegative) ∨
        (x.isFinite = true ∧ y.isFinite = true ∧ x.value = y.value) :=
  ⟨equivalenceButNaN_of_same_iff Expr.same_iff, equivalenceButNaN_of_same_iff Def.same_iff,
    equivalenceButNaN_of_same_iff Pattern.same_iff, equivalenceButNaN_of_same_iff sameChannels_iff,
    equivalenceButNaN_of_same_iff Literal.same_iff, fun _ _ => Binary64.same_iff_value_eq⟩

end PhaseTree
