import Mathlib.Data.List.Forall2
import PhaseTree.Print.Expr

set_option autoImplicit false

namespace PhaseTree

theorem isEmpty_eq_of_forall₂ {α β : Type} {r : α → β → Prop} {as : List α} {bs : List β}
    (h : List.Forall₂ r as bs) : as.isEmpty = bs.isEmpty := by
  cases h <;> rfl

section

variable {V V' : Type} [Named V] [Named V']

structure SameName (v : V) (v' : V') : Prop where
  bare : Named.bare v = Named.bare v'
  display : Named.display v = Named.display v'

theorem SameName.nameDoc {v : V} {v' : V'} (h : SameName v v') : nameDoc v = nameDoc v' := by
  simp [PhaseTree.nameDoc, h.bare, h.display]

theorem SameName.infixDoc {v : V} {v' : V'} (h : SameName v v') : infixDoc v = infixDoc v' := by
  simp [PhaseTree.infixDoc, h.bare, h.display]

namespace Pattern

structure LooksLike (p : Pattern V) (p' : Pattern V') : Prop where
  doc : ∀ placement, p.doc placement = p'.doc placement
  isCons : p.isCons = p'.isCons

namespace LooksLike

theorem docs {ps : List (Pattern V)} {ps' : List (Pattern V')} (h : List.Forall₂ LooksLike ps ps')
    (placement : Placement) : Pattern.docs placement ps = Pattern.docs placement ps' := by
  induction h with
  | nil => rfl
  | cons hp _ ih => rw [Pattern.docs, Pattern.docs, hp.doc, ih]

theorem consDocs {ps : List (Pattern V)} {ps' : List (Pattern V')}
    (h : List.Forall₂ LooksLike ps ps') : Pattern.consDocs ps = Pattern.consDocs ps' := by
  induction h with
  | nil => rfl
  | cons hp hps ih =>
    rw [Pattern.consDocs, Pattern.consDocs, hp.doc, hp.isCons, isEmpty_eq_of_forall₂ hps, ih]

theorem data {v : V} {v' : V'} {ps : List (Pattern V)} {ps' : List (Pattern V')}
    (hv : SameName v v') (h : List.Forall₂ LooksLike ps ps') :
    (Pattern.data v ps).LooksLike (.data v' ps') where
  doc placement := by
    simp only [Pattern.doc, hv.bare, hv.display, h.length_eq, docs h, consDocs h,
      isEmpty_eq_of_forall₂ h]
  isCons := by simp only [Pattern.isCons, hv.bare, h.length_eq]

/-- The names of tuples are not shown. -/
theorem tuple {v : V} {v' : V'} {ps : List (Pattern V)} {ps' : List (Pattern V')}
    (hv : Reserved.isTupleName (Named.bare v) = true)
    (hv' : Reserved.isTupleName (Named.bare v') = true) (h : List.Forall₂ LooksLike ps ps') :
    (Pattern.data v ps).LooksLike (.data v' ps') where
  doc placement := by simp only [Pattern.doc, Sugar.of_tupleName hv, Sugar.of_tupleName hv', docs h]
  isCons := by simp only [Pattern.isCons, Sugar.of_tupleName hv, Sugar.of_tupleName hv']

theorem named {name : String} {p : Pattern V} {p' : Pattern V'} (h : p.LooksLike p') :
    (Pattern.named name p).LooksLike (.named name p') where
  doc placement := by simp only [Pattern.doc, h.doc]
  isCons := rfl

end LooksLike

end Pattern

namespace TypeExpr

structure LooksLike (t : TypeExpr V) (t' : TypeExpr V') : Prop where
  doc : ∀ placement, t.doc placement = t'.doc placement
  isFunction : t.isFunction = t'.isFunction
  isTupleHead : t.isTupleHead = t'.isTupleHead

def SameField (f : String × TypeExpr V) (f' : String × TypeExpr V') : Prop :=
  f.1 = f'.1 ∧ f.2.LooksLike f'.2

namespace LooksLike

theorem docs {ts : List (TypeExpr V)} {ts' : List (TypeExpr V')}
    (h : List.Forall₂ LooksLike ts ts') (placement : Placement) :
    TypeExpr.docs placement ts = TypeExpr.docs placement ts' := by
  induction h with
  | nil => rfl
  | cons ht _ ih => rw [TypeExpr.docs, TypeExpr.docs, ht.doc, ih]

theorem fieldDocs {fields : List (String × TypeExpr V)} {fields' : List (String × TypeExpr V')}
    (h : List.Forall₂ SameField fields fields') :
    TypeExpr.fieldDocs fields = TypeExpr.fieldDocs fields' := by
  induction h with
  | nil => rfl
  | cons hf _ ih => rw [TypeExpr.fieldDocs, TypeExpr.fieldDocs, hf.1, hf.2.doc, ih]

theorem extensionDoc {extension : Option (TypeExpr V)} {extension' : Option (TypeExpr V')}
    (h : Option.Rel LooksLike extension extension') :
    TypeExpr.extensionDoc extension = TypeExpr.extensionDoc extension' := by
  cases h with
  | none => rfl
  | some ht => rw [TypeExpr.extensionDoc, TypeExpr.extensionDoc, ht.doc]

theorem function {t u : TypeExpr V} {t' u' : TypeExpr V'} (ht : t.LooksLike t')
    (hu : u.LooksLike u') : (TypeExpr.function t u).LooksLike (.function t' u') where
  doc placement := by simp only [TypeExpr.doc, ht.doc, ht.isFunction, hu.doc]
  isFunction := rfl
  isTupleHead := rfl

theorem con {v : V} {v' : V'} (h : SameName v v') : (TypeExpr.con v).LooksLike (.con v') where
  doc placement := by simp only [TypeExpr.doc, h.display]
  isFunction := rfl
  isTupleHead := by simp only [TypeExpr.isTupleHead, h.bare]

theorem app {t : TypeExpr V} {t' : TypeExpr V'} {ts : List (TypeExpr V)} {ts' : List (TypeExpr V')}
    (ht : t.LooksLike t') (h : List.Forall₂ LooksLike ts ts') :
    (TypeExpr.app t ts).LooksLike (.app t' ts') where
  doc placement := by
    simp only [TypeExpr.doc, ht.doc, ht.isTupleHead, docs h, isEmpty_eq_of_forall₂ h]
  isFunction := rfl
  isTupleHead := rfl

theorem record {fields : List (String × TypeExpr V)} {fields' : List (String × TypeExpr V')}
    {extension : Option (TypeExpr V)} {extension' : Option (TypeExpr V')}
    (hf : List.Forall₂ SameField fields fields') (he : Option.Rel LooksLike extension extension') :
    (TypeExpr.record fields extension).LooksLike (.record fields' extension') where
  doc placement := by
    have hn : extension.isNone = extension'.isNone := by cases he <;> rfl
    simp only [TypeExpr.doc, fieldDocs hf, extensionDoc he, isEmpty_eq_of_forall₂ hf, hn]
  isFunction := rfl
  isTupleHead := rfl

end LooksLike

end TypeExpr

end

variable {A D V T A' D' V' T' : Type} [Named V] [Named V'] [Printable D] [Printable D']
  [Printable T] [Printable T']

structure Expr.LooksLike (e : Expr A D V T) (e' : Expr A' D' V' T') : Prop where
  doc : ∀ config placement, e.doc config placement = e'.doc config placement
  isLambda : e.isLambda = e'.isLambda
  isApp : e.isApp = e'.isApp
  isRemove : e.isRemove = e'.isRemove
  isCons : e.isCons = e'.isCons
  isZero : e.isInt 0 = e'.isInt 0

def Def.LooksLike (d : Def A D V T) (d' : Def A' D' V' T') : Prop :=
  ∀ config, d.doc config = d'.doc config

/-- Two parts of a branch or field, of which the first has a relation of its own. -/
def SamePart {α β : Type} (r : α → β → Prop) (x : α × Expr A D V T) (x' : β × Expr A' D' V' T') : Prop :=
  r x.1 x'.1 ∧ x.2.LooksLike x'.2

namespace Expr.LooksLike

variable {a : A} {a' : A'}

theorem exprDocs {es : List (Expr A D V T)} {es' : List (Expr A' D' V' T')}
    (h : List.Forall₂ LooksLike es es') (config : Config) (placement : Placement) :
    exprDocs config placement es = exprDocs config placement es' := by
  induction h with
  | nil => rfl
  | cons he _ ih => rw [PhaseTree.exprDocs, PhaseTree.exprDocs, he.doc, ih]

theorem consDocs {es : List (Expr A D V T)} {es' : List (Expr A' D' V' T')}
    (h : List.Forall₂ LooksLike es es') (config : Config) : consDocs config es = consDocs config es' := by
  induction h with
  | nil => rfl
  | cons he hes ih =>
    rw [PhaseTree.consDocs, PhaseTree.consDocs, he.doc, he.isCons, isEmpty_eq_of_forall₂ hes, ih]

theorem guardDocs {bs : List (Expr A D V T × Expr A D V T)}
    {bs' : List (Expr A' D' V' T' × Expr A' D' V' T')}
    (h : List.Forall₂ (SamePart LooksLike) bs bs') (config : Config) :
    guardDocs config bs = guardDocs config bs' := by
  induction h with
  | nil => rfl
  | cons hb _ ih => rw [PhaseTree.guardDocs, PhaseTree.guardDocs, hb.1.doc, hb.2.doc, ih]

theorem defDocs {ds : List (Def A D V T)} {ds' : List (Def A' D' V' T')}
    (h : List.Forall₂ Def.LooksLike ds ds') (config : Config) : defDocs config ds = defDocs config ds' := by
  induction h with
  | nil => rfl
  | cons hd _ ih => rw [PhaseTree.defDocs, PhaseTree.defDocs, hd config, ih]

theorem branchDocs {bs : List (Pattern V × Expr A D V T)} {bs' : List (Pattern V' × Expr A' D' V' T')}
    (h : List.Forall₂ (SamePart Pattern.LooksLike) bs bs') (config : Config) :
    branchDocs config bs = branchDocs config bs' := by
  induction h with
  | nil => rfl
  | cons hb _ ih => rw [PhaseTree.branchDocs, PhaseTree.branchDocs, hb.1.doc, hb.2.doc, ih]

theorem fieldDocs {fs : List (String × Expr A D V T)} {fs' : List (String × Expr A' D' V' T')}
    (h : List.Forall₂ (SamePart Eq) fs fs') (config : Config) (relation : String) :
    fieldDocs config relation fs = fieldDocs config relation fs' := by
  induction h with
  | nil => rfl
  | cons hf _ ih => rw [PhaseTree.fieldDocs, PhaseTree.fieldDocs, hf.1, hf.2.doc, ih]

theorem lit {value : Literal} :
    (Expr.lit a value : Expr A D V T).LooksLike (Expr.lit a' value : Expr A' D' V' T') :=
  ⟨fun _ _ => rfl, rfl, rfl, rfl, rfl, by cases value <;> rfl⟩

theorem var {v : V} {v' : V'} (h : SameName v v') :
    (Expr.var a v : Expr A D V T).LooksLike (Expr.var a' v' : Expr A' D' V' T') :=
  ⟨fun _ _ => by simp only [Expr.doc, h.nameDoc], rfl, rfl, rfl, rfl, rfl⟩

variable {e f : Expr A D V T} {e' f' : Expr A' D' V' T'}

theorem range (he : e.LooksLike e') (hf : f.LooksLike f') :
    (Expr.range a e f).LooksLike (.range a' e' f') :=
  ⟨fun _ _ => by simp only [Expr.doc, he.doc, hf.doc], rfl, rfl, rfl, rfl, rfl⟩

theorem list {es : List (Expr A D V T)} {es' : List (Expr A' D' V' T')}
    (h : List.Forall₂ LooksLike es es') : (Expr.list a es).LooksLike (.list a' es') :=
  ⟨fun _ _ => by simp only [Expr.doc, exprDocs h], rfl, rfl, rfl, rfl, rfl⟩

theorem isNegation {v : V} {v' : V'} (h : SameName v v') (he : e.LooksLike e') :
    e.isNegation v = e'.isNegation v' := by
  simp only [Expr.isNegation, h.bare, he.isZero]

theorem binop {v : V} {v' : V'} (h : SameName v v') (he : e.LooksLike e') (hf : f.LooksLike f') :
    (Expr.binop a v e f).LooksLike (.binop a' v' e' f') :=
  ⟨fun _ _ => by simp only [Expr.doc, isNegation h he, h.infixDoc, he.doc, hf.doc],
    rfl, rfl, rfl, rfl, rfl⟩

theorem lambda {p : Pattern V} {p' : Pattern V'} (hp : p.LooksLike p') (he : e.LooksLike e') :
    (Expr.lambda a p e).LooksLike (.lambda a' p' e') :=
  ⟨fun _ placement => by cases placement <;> simp only [Expr.doc, hp.doc, he.isLambda, he.doc],
    rfl, rfl, rfl, rfl, rfl⟩

theorem app (he : e.LooksLike e') (hf : f.LooksLike f') :
    (Expr.app a e f).LooksLike (.app a' e' f') :=
  ⟨fun _ _ => by simp only [Expr.doc, he.isApp, he.doc, hf.doc], rfl, rfl, rfl, rfl, rfl⟩

theorem guards {bs : List (Expr A D V T × Expr A D V T)}
    {bs' : List (Expr A' D' V' T' × Expr A' D' V' T')}
    (h : List.Forall₂ (SamePart LooksLike) bs bs') :
    (Expr.guards a bs).LooksLike (.guards a' bs') :=
  ⟨fun _ _ => by simp only [Expr.doc, guardDocs h], rfl, rfl, rfl, rfl, rfl⟩

theorem letIn {ds : List (Def A D V T)} {ds' : List (Def A' D' V' T')}
    (h : List.Forall₂ Def.LooksLike ds ds') (he : e.LooksLike e') :
    (Expr.letIn a ds e).LooksLike (.letIn a' ds' e') :=
  ⟨fun _ _ => by simp only [Expr.doc, defDocs h, he.doc], rfl, rfl, rfl, rfl, rfl⟩

theorem case {bs : List (Pattern V × Expr A D V T)} {bs' : List (Pattern V' × Expr A' D' V' T')}
    (he : e.LooksLike e') (h : List.Forall₂ (SamePart Pattern.LooksLike) bs bs') :
    (Expr.case a e bs).LooksLike (.case a' e' bs') :=
  ⟨fun _ _ => by simp only [Expr.doc, he.doc, branchDocs h], rfl, rfl, rfl, rfl, rfl⟩

theorem data {ctor : String} {es : List (Expr A D V T)} {es' : List (Expr A' D' V' T')}
    (h : List.Forall₂ LooksLike es es') : (Expr.data a ctor es).LooksLike (.data a' ctor es') :=
  ⟨fun _ _ => by
      simp only [Expr.doc, h.length_eq, consDocs h, exprDocs h, isEmpty_eq_of_forall₂ h],
    rfl, rfl, rfl, by simp only [Expr.isCons, h.length_eq], rfl⟩

theorem tuple {ctor ctor' : String} {es : List (Expr A D V T)} {es' : List (Expr A' D' V' T')}
    (hc : Reserved.isTupleName ctor = true) (hc' : Reserved.isTupleName ctor' = true)
    (h : List.Forall₂ LooksLike es es') : (Expr.data a ctor es).LooksLike (.data a' ctor' es') :=
  ⟨fun _ _ => by simp only [Expr.doc, Sugar.of_tupleName hc, Sugar.of_tupleName hc', exprDocs h],
    rfl, rfl, rfl, by simp only [Expr.isCons, Sugar.of_tupleName hc, Sugar.of_tupleName hc'], rfl⟩

theorem access {field : String} (he : e.LooksLike e') :
    (Expr.access a e field).LooksLike (.access a' e' field) :=
  ⟨fun _ _ => by simp only [Expr.doc, he.doc], rfl, rfl, rfl, rfl, rfl⟩

theorem remove {field : String} (he : e.LooksLike e') :
    (Expr.remove a e field).LooksLike (.remove a' e' field) :=
  ⟨fun _ placement => by cases placement <;> simp only [Expr.doc, he.doc], rfl, rfl, rfl, rfl, rfl⟩

theorem insert {field : String} (he : e.LooksLike e') (hf : f.LooksLike f') :
    (Expr.insert a e field f).LooksLike (.insert a' e' field f') :=
  ⟨fun _ _ => by simp only [Expr.doc, he.isRemove, he.doc, hf.doc], rfl, rfl, rfl, rfl, rfl⟩

theorem modify {fs : List (String × Expr A D V T)} {fs' : List (String × Expr A' D' V' T')}
    (he : e.LooksLike e') (h : List.Forall₂ (SamePart Eq) fs fs') :
    (Expr.modify a e fs).LooksLike (.modify a' e' fs') :=
  ⟨fun _ _ => by simp only [Expr.doc, he.doc, fieldDocs h], rfl, rfl, rfl, rfl, rfl⟩

theorem record {fs : List (String × Expr A D V T)} {fs' : List (String × Expr A' D' V' T')}
    (h : List.Forall₂ (SamePart Eq) fs fs') : (Expr.record a fs).LooksLike (.record a' fs') :=
  ⟨fun _ _ => by simp only [Expr.doc, fieldDocs h], rfl, rfl, rfl, rfl, rfl⟩

theorem channel {c : Channel (Expr A D V T) T} {c' : Channel (Expr A' D' V' T') T'}
    (h : c.name = c'.name) : (Expr.channel a c).LooksLike (.channel a' c') :=
  ⟨fun _ _ => by simp only [Expr.doc, h], rfl, rfl, rfl, rfl, rfl⟩

theorem shader {uid source uid' source' : String} :
    (Expr.shader a uid source : Expr A D V T).LooksLike
      (Expr.shader a' uid' source' : Expr A' D' V' T') :=
  ⟨fun _ _ => rfl, rfl, rfl, rfl, rfl, rfl⟩

end Expr.LooksLike

theorem Def.LooksLike.bind {p : Pattern V} {p' : Pattern V'} {e : Expr A D V T}
    {e' : Expr A' D' V' T'} {type : Option T} {type' : Option T'} (hp : p.LooksLike p')
    (he : e.LooksLike e')
    (ht : Option.Rel (fun t t' => ∀ config, Printable.doc config .whole t =
      Printable.doc config .whole t') type type') :
    (Def.bind p e type).LooksLike (.bind p' e' type') := by
  intro config
  cases ht with
  | none => simp only [Def.doc, hp.doc, he.doc]
  | some h => simp only [Def.doc, hp.doc, he.doc, h]

end PhaseTree
