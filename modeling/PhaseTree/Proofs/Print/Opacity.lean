import PhaseTree.Proofs.Print.Likeness

set_option autoImplicit false

namespace PhaseTree

def NameTuples (name name' : String) : Prop :=
  Reserved.isTupleName name = true ∧ Reserved.isTupleName name' = true

section

variable {V : Type} [Named V]

namespace Pattern

theorem LooksLike.refl (p : Pattern V) : p.LooksLike p := ⟨fun _ => rfl, rfl⟩

mutual
def Agrees : Pattern V → Pattern V → Prop
  | data name args, data name' args' =>
    (name = name' ∨ NameTuples (Named.bare name) (Named.bare name')) ∧ AgreeAll args args'
  | record fields, record fields' => fields = fields'
  | named name inner, named name' inner' => name = name' ∧ inner.Agrees inner'
  | var name, var name' => name = name'
  | any, any => True
  | lit value, lit value' => value = value'
  | _, _ => False
termination_by structural p => p
def AgreeAll : List (Pattern V) → List (Pattern V) → Prop
  | [], [] => True
  | p :: rest, p' :: rest' => p.Agrees p' ∧ AgreeAll rest rest'
  | _, _ => False
termination_by structural ps => ps
end

mutual
theorem Agrees.looksLike (p p' : Pattern V) (h : p.Agrees p') : p.LooksLike p' := by
  cases p with
  | data name args =>
    cases p' with
    | data name' args' =>
      have hargs := AgreeAll.looksLike args args' h.2
      obtain rfl | ⟨hn, hn'⟩ := h.1
      · exact .data ⟨rfl, rfl⟩ hargs
      · exact .tuple hn hn' hargs
    | _ => exact False.elim h
  | record fields =>
    cases p' with
    | record fields' =>
      obtain rfl : fields = fields' := h
      exact .refl _
    | _ => exact False.elim h
  | named name inner =>
    cases p' with
    | named name' inner' =>
      obtain ⟨rfl, hi⟩ := h
      exact .named (Agrees.looksLike inner inner' hi)
    | _ => exact False.elim h
  | var name =>
    cases p' with
    | var name' =>
      obtain rfl : name = name' := h
      exact .refl _
    | _ => exact False.elim h
  | any =>
    cases p' with
    | any => exact .refl _
    | _ => exact False.elim h
  | lit value =>
    cases p' with
    | lit value' =>
      obtain rfl : value = value' := h
      exact .refl _
    | _ => exact False.elim h
termination_by structural p
theorem AgreeAll.looksLike (ps ps' : List (Pattern V)) (h : AgreeAll ps ps') :
    List.Forall₂ LooksLike ps ps' := by
  rcases ps with _ | ⟨p, ps⟩ <;> rcases ps' with _ | ⟨p', ps'⟩
  · exact .nil
  · exact False.elim h
  · exact False.elim h
  · exact .cons (Agrees.looksLike p p' h.1) (AgreeAll.looksLike ps ps' h.2)
termination_by structural ps
end

end Pattern

end

variable {A A' D V T : Type} [Named V]

mutual
/-- The same expression up to what is hidden. -/
def Expr.Agrees : Expr A D V T → Expr A' D V T → Prop
  | .lit _ value, .lit _ value' => value = value'
  | .var _ name, .var _ name' => name = name'
  | .range _ low high, .range _ low' high' => low.Agrees low' ∧ high.Agrees high'
  | .list _ items, .list _ items' => ExprsAgree items items'
  | .binop _ op left right, .binop _ op' left' right' =>
    op = op' ∧ left.Agrees left' ∧ right.Agrees right'
  | .lambda _ param body, .lambda _ param' body' => param.Agrees param' ∧ body.Agrees body'
  | .app _ func arg, .app _ func' arg' => func.Agrees func' ∧ arg.Agrees arg'
  | .guards _ branches, .guards _ branches' => GuardsAgree branches branches'
  | .letIn _ defs body, .letIn _ defs' body' => DefsAgree defs defs' ∧ body.Agrees body'
  | .case _ subject branches, .case _ subject' branches' =>
    subject.Agrees subject' ∧ BranchesAgree branches branches'
  | .data _ ctor args, .data _ ctor' args' => (ctor = ctor' ∨ NameTuples ctor ctor') ∧ ExprsAgree args args'
  | .access _ e field, .access _ e' field' => field = field' ∧ e.Agrees e'
  | .remove _ e field, .remove _ e' field' => field = field' ∧ e.Agrees e'
  | .insert _ e field value, .insert _ e' field' value' =>
    field = field' ∧ e.Agrees e' ∧ value.Agrees value'
  | .modify _ e fields, .modify _ e' fields' => e.Agrees e' ∧ FieldsAgree fields fields'
  | .record _ fields, .record _ fields' => FieldsAgree fields fields'
  | .channel _ channel, .channel _ channel' => channel.name = channel'.name
  | .shader _ _ _, .shader _ _ _ => True
  | _, _ => False
termination_by structural e => e
def Def.Agrees : Def A D V T → Def A' D V T → Prop
  | .bind pattern body type, .bind pattern' body' type' =>
    type = type' ∧ pattern.Agrees pattern' ∧ body.Agrees body'
  | .foreign definition, .foreign definition' => definition = definition'
  | _, _ => False
termination_by structural d => d
def ExprsAgree : List (Expr A D V T) → List (Expr A' D V T) → Prop
  | [], [] => True
  | e :: rest, e' :: rest' => e.Agrees e' ∧ ExprsAgree rest rest'
  | _, _ => False
termination_by structural es => es
def GuardsAgree : List (Expr A D V T × Expr A D V T) → List (Expr A' D V T × Expr A' D V T) → Prop
  | [], [] => True
  | (condition, result) :: rest, (condition', result') :: rest' =>
    condition.Agrees condition' ∧ result.Agrees result' ∧ GuardsAgree rest rest'
  | _, _ => False
termination_by structural branches => branches
def DefsAgree : List (Def A D V T) → List (Def A' D V T) → Prop
  | [], [] => True
  | d :: rest, d' :: rest' => d.Agrees d' ∧ DefsAgree rest rest'
  | _, _ => False
termination_by structural defs => defs
def BranchesAgree : List (Pattern V × Expr A D V T) → List (Pattern V × Expr A' D V T) → Prop
  | [], [] => True
  | (pattern, result) :: rest, (pattern', result') :: rest' =>
    pattern.Agrees pattern' ∧ result.Agrees result' ∧ BranchesAgree rest rest'
  | _, _ => False
termination_by structural branches => branches
def FieldsAgree : List (String × Expr A D V T) → List (String × Expr A' D V T) → Prop
  | [], [] => True
  | (field, value) :: rest, (field', value') :: rest' =>
    field = field' ∧ value.Agrees value' ∧ FieldsAgree rest rest'
  | _, _ => False
termination_by structural fields => fields
end

variable [Printable D] [Printable T]

mutual
theorem Expr.Agrees.looksLike (e : Expr A D V T) (e' : Expr A' D V T) (h : e.Agrees e') :
    e.LooksLike e' := by
  cases e with
  | lit _ value =>
    cases e' with
    | lit _ value' =>
      obtain rfl : value = value' := h
      exact .lit
    | _ => exact False.elim h
  | var _ name =>
    cases e' with
    | var _ name' =>
      obtain rfl : name = name' := h
      exact .var ⟨rfl, rfl⟩
    | _ => exact False.elim h
  | range _ low high =>
    cases e' with
    | range _ low' high' =>
      exact .range (Expr.Agrees.looksLike low low' h.1) (Expr.Agrees.looksLike high high' h.2)
    | _ => exact False.elim h
  | list _ items =>
    cases e' with
    | list _ items' => exact .list (ExprsAgree.looksLike items items' h)
    | _ => exact False.elim h
  | binop _ op left right =>
    cases e' with
    | binop _ op' left' right' =>
      obtain ⟨rfl, hl, hr⟩ := h
      exact .binop ⟨rfl, rfl⟩ (Expr.Agrees.looksLike left left' hl) (Expr.Agrees.looksLike right right' hr)
    | _ => exact False.elim h
  | lambda _ param body =>
    cases e' with
    | lambda _ param' body' =>
      exact .lambda (h.1.looksLike param param') (Expr.Agrees.looksLike body body' h.2)
    | _ => exact False.elim h
  | app _ func arg =>
    cases e' with
    | app _ func' arg' =>
      exact .app (Expr.Agrees.looksLike func func' h.1) (Expr.Agrees.looksLike arg arg' h.2)
    | _ => exact False.elim h
  | guards _ branches =>
    cases e' with
    | guards _ branches' => exact .guards (GuardsAgree.looksLike branches branches' h)
    | _ => exact False.elim h
  | letIn _ defs body =>
    cases e' with
    | letIn _ defs' body' =>
      exact .letIn (DefsAgree.looksLike defs defs' h.1) (Expr.Agrees.looksLike body body' h.2)
    | _ => exact False.elim h
  | case _ subject branches =>
    cases e' with
    | case _ subject' branches' =>
      have hs := Expr.Agrees.looksLike subject subject' h.1
      exact .case hs (BranchesAgree.looksLike branches branches' h.2)
    | _ => exact False.elim h
  | data _ ctor args =>
    cases e' with
    | data _ ctor' args' =>
      have hargs := ExprsAgree.looksLike args args' h.2
      obtain rfl | ⟨hc, hc'⟩ := h.1
      · exact .data hargs
      · exact .tuple hc hc' hargs
    | _ => exact False.elim h
  | access _ e field =>
    cases e' with
    | access _ e' field' =>
      obtain ⟨rfl, he⟩ := h
      exact .access (Expr.Agrees.looksLike e e' he)
    | _ => exact False.elim h
  | remove _ e field =>
    cases e' with
    | remove _ e' field' =>
      obtain ⟨rfl, he⟩ := h
      exact .remove (Expr.Agrees.looksLike e e' he)
    | _ => exact False.elim h
  | insert _ e field value =>
    cases e' with
    | insert _ e' field' value' =>
      obtain ⟨rfl, he, hv⟩ := h
      exact .insert (Expr.Agrees.looksLike e e' he) (Expr.Agrees.looksLike value value' hv)
    | _ => exact False.elim h
  | modify _ e fields =>
    cases e' with
    | modify _ e' fields' =>
      exact .modify (Expr.Agrees.looksLike e e' h.1) (FieldsAgree.looksLike fields fields' h.2)
    | _ => exact False.elim h
  | record _ fields =>
    cases e' with
    | record _ fields' => exact .record (FieldsAgree.looksLike fields fields' h)
    | _ => exact False.elim h
  | channel _ channel =>
    cases e' with
    | channel _ channel' => exact .channel h
    | _ => exact False.elim h
  | shader _ _ _ =>
    cases e' with
    | shader _ _ _ => exact .shader
    | _ => exact False.elim h
termination_by structural e
theorem Def.Agrees.looksLike (d : Def A D V T) (d' : Def A' D V T) (h : d.Agrees d') : d.LooksLike d' := by
  rcases d with ⟨pattern, body, type⟩ | definition <;>
    rcases d' with ⟨pattern', body', type'⟩ | definition'
  · obtain ⟨rfl, hp, hb⟩ := h
    refine .bind (hp.looksLike pattern pattern') (Expr.Agrees.looksLike body body' hb) ?_
    cases type with
    | none => exact .none
    | some type => exact .some fun _ => rfl
  · exact False.elim h
  · exact False.elim h
  · obtain rfl : definition = definition' := h
    exact fun _ => rfl
termination_by structural d
theorem ExprsAgree.looksLike (es : List (Expr A D V T)) (es' : List (Expr A' D V T))
    (h : ExprsAgree es es') : List.Forall₂ Expr.LooksLike es es' := by
  rcases es with _ | ⟨e, es⟩ <;> rcases es' with _ | ⟨e', es'⟩
  · exact .nil
  · exact False.elim h
  · exact False.elim h
  · exact .cons (Expr.Agrees.looksLike e e' h.1) (ExprsAgree.looksLike es es' h.2)
termination_by structural es
theorem GuardsAgree.looksLike (branches : List (Expr A D V T × Expr A D V T))
    (branches' : List (Expr A' D V T × Expr A' D V T)) (h : GuardsAgree branches branches') :
    List.Forall₂ (SamePart Expr.LooksLike) branches branches' := by
  rcases branches with _ | ⟨⟨condition, result⟩, branches⟩ <;>
    rcases branches' with _ | ⟨⟨condition', result'⟩, branches'⟩
  · exact .nil
  · exact False.elim h
  · exact False.elim h
  · have hc := Expr.Agrees.looksLike condition condition' h.1
    have hr := Expr.Agrees.looksLike result result' h.2.1
    exact .cons ⟨hc, hr⟩ (GuardsAgree.looksLike branches branches' h.2.2)
termination_by structural branches
theorem DefsAgree.looksLike (defs : List (Def A D V T)) (defs' : List (Def A' D V T))
    (h : DefsAgree defs defs') : List.Forall₂ Def.LooksLike defs defs' := by
  rcases defs with _ | ⟨d, defs⟩ <;> rcases defs' with _ | ⟨d', defs'⟩
  · exact .nil
  · exact False.elim h
  · exact False.elim h
  · exact .cons (Def.Agrees.looksLike d d' h.1) (DefsAgree.looksLike defs defs' h.2)
termination_by structural defs
theorem BranchesAgree.looksLike (branches : List (Pattern V × Expr A D V T))
    (branches' : List (Pattern V × Expr A' D V T)) (h : BranchesAgree branches branches') :
    List.Forall₂ (SamePart Pattern.LooksLike) branches branches' := by
  rcases branches with _ | ⟨⟨pattern, result⟩, branches⟩ <;>
    rcases branches' with _ | ⟨⟨pattern', result'⟩, branches'⟩
  · exact .nil
  · exact False.elim h
  · exact False.elim h
  · have hr := Expr.Agrees.looksLike result result' h.2.1
    exact .cons ⟨h.1.looksLike pattern pattern', hr⟩ (BranchesAgree.looksLike branches branches' h.2.2)
termination_by structural branches
theorem FieldsAgree.looksLike (fields : List (String × Expr A D V T))
    (fields' : List (String × Expr A' D V T)) (h : FieldsAgree fields fields') :
    List.Forall₂ (SamePart Eq) fields fields' := by
  rcases fields with _ | ⟨⟨field, value⟩, fields⟩ <;> rcases fields' with _ | ⟨⟨field', value'⟩, fields'⟩
  · exact .nil
  · exact False.elim h
  · exact False.elim h
  · have hv := Expr.Agrees.looksLike value value' h.2.1
    exact .cons ⟨h.1, hv⟩ (FieldsAgree.looksLike fields fields' h.2.2)
termination_by structural fields
end

/-- Trees that agree leave the same canvas: the same text, and the same column behind it. -/
theorem draw_eq_of_agrees :
    (∀ (e : Expr A D V T) (e' : Expr A' D V T), e.Agrees e' →
      ∀ (config : Config) (placement : Placement) (canvas : Canvas),
        draw config placement e canvas = draw config placement e' canvas) ∧
    ∀ (d : Def A D V T) (d' : Def A' D V T), d.Agrees d' →
      ∀ (config : Config) (placement : Placement) (canvas : Canvas),
        draw config placement d canvas = draw config placement d' canvas := by
  refine ⟨fun e e' h config placement canvas => ?_, fun d d' h config placement canvas => ?_⟩
  · have hd := (h.looksLike e e').doc config placement
    exact congrArg (Doc.draw · canvas) hd
  · have hd := h.looksLike d d' config
    exact congrArg (Doc.draw · canvas) hd

theorem draw_eq_of_agrees_let :
    let pair (name : String) : Pattern RawName := .data ⟨name⟩ [.var "a", .lit (.int (-1))]
    let type : TypeExpr RawName := .con ⟨"T"⟩
    let e : ParsedExpr := .letIn .synthetic
      [.bind (pair "_Tuple2") (.channel ⟨0, 1⟩ (.inbound "p" type)) (some type)]
      (.data ⟨2, 3⟩ "_Tuple0" [.shader .synthetic "uid" "source"])
    let e' : ParsedExpr := .letIn ⟨4, 5⟩
      [.bind (pair "_Tuple07") (.channel ⟨6, 7⟩ (.task "p" e (.var "t"))) (some type)]
      (.data .synthetic "_Tuple31" [.shader ⟨8, 9⟩ "" ""])
    e.Agrees e' ∧ ∀ canvas, draw .standard .operand e canvas = draw .standard .operand e' canvas := by
  intro pair type e e'
  have named : NameTuples "_Tuple2" "_Tuple07" := ⟨by decide, by decide⟩
  have pairs : (pair "_Tuple2").Agrees (pair "_Tuple07") := ⟨.inr named, rfl, rfl, trivial⟩
  have bodies : NameTuples "_Tuple0" "_Tuple31" := ⟨by decide, by decide⟩
  have h : e.Agrees e' := ⟨⟨⟨rfl, pairs, rfl⟩, trivial⟩, .inr bodies, trivial, trivial⟩
  exact ⟨h, draw_eq_of_agrees.1 e e' h .standard .operand⟩

end PhaseTree
