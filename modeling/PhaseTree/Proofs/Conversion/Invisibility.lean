import PhaseTree.Proofs.Print.Likeness
import PhaseTree.Tree.Resolution

set_option autoImplicit false

namespace PhaseTree

section

variable {σ X Y : Type}

def Returns (run : StateM σ X) (post : X → Prop) : Prop := ∀ s, post (run.run s).1

def CanReturn (run : StateM σ X) (x : X) : Prop := ∃ s, (run.run s).1 = x

namespace Returns

theorem pure {x : X} {post : X → Prop} (h : post x) : Returns (Pure.pure x : StateM σ X) post :=
  fun _ => h

theorem bind {run : StateM σ X} {next : X → StateM σ Y} {mid : X → Prop} {post : Y → Prop}
    (h : Returns run mid) (h' : ∀ x, mid x → Returns (next x) post) : Returns (run >>= next) post :=
  fun s => h' _ (h s) (run.run s).2

theorem after {run : StateM σ X} {next : X → StateM σ Y} {post : Y → Prop}
    (h : ∀ x, Returns (next x) post) : Returns (run >>= next) post :=
  fun s => h _ (run.run s).2

theorem of_canReturn {run run' : StateM σ X} {post : X → Prop} (h : Returns run (CanReturn run'))
    (h' : Returns run' post) : Returns run post := by
  intro s
  obtain ⟨s', hs⟩ := h s
  rw [← hs]
  exact h' s'

end Returns

end

section

variable {σ V W : Type} [Named V] [Named W] {f : V → StateM σ W}

mutual
theorem Pattern.convert_looksLike (h : ∀ v, Returns (f v) (SameName v)) (p : Pattern V) :
    Returns (p.convert f) p.LooksLike := by
  cases p with
  | data name args =>
    rw [convert]
    exact (h name).bind fun _ hn => (Pattern.convertAll_looksLike h args).bind fun _ ha =>
      .pure (.data hn ha)
  | named name inner =>
    rw [convert]
    exact (Pattern.convert_looksLike h inner).bind fun _ hp => .pure (.named hp)
  | record _ | var _ | any | lit _ => exact .pure ⟨fun _ => by simp only [doc], rfl⟩
theorem Pattern.convertAll_looksLike (h : ∀ v, Returns (f v) (SameName v)) (ps : List (Pattern V)) :
    Returns (Pattern.convertAll f ps) (List.Forall₂ Pattern.LooksLike ps) := by
  cases ps with
  | nil => exact .pure .nil
  | cons p ps =>
    rw [Pattern.convertAll]
    exact (Pattern.convert_looksLike h p).bind fun _ hp =>
      (Pattern.convertAll_looksLike h ps).bind fun _ hs => .pure (.cons hp hs)
end

mutual
theorem TypeExpr.convert_looksLike (h : ∀ v, Returns (f v) (SameName v)) (t : TypeExpr V) :
    Returns (t.convert f) t.LooksLike := by
  cases t with
  | function argument result =>
    rw [convert]
    exact (TypeExpr.convert_looksLike h argument).bind fun _ ha =>
      (TypeExpr.convert_looksLike h result).bind fun _ hr => .pure (.function ha hr)
  | var name => exact .pure ⟨fun _ => by simp only [doc], rfl, rfl⟩
  | con name =>
    rw [convert]
    exact (h name).bind fun _ hn => .pure (.con hn)
  | app head args =>
    rw [convert]
    exact (TypeExpr.convert_looksLike h head).bind fun _ hh =>
      (TypeExpr.convertAll_looksLike h args).bind fun _ ha => .pure (.app hh ha)
  | record fields extension =>
    rw [convert]
    exact (TypeExpr.convertFields_looksLike h fields).bind fun _ hf =>
      (TypeExpr.convertExtension_looksLike h extension).bind fun _ he => .pure (.record hf he)
theorem TypeExpr.convertAll_looksLike (h : ∀ v, Returns (f v) (SameName v))
    (ts : List (TypeExpr V)) :
    Returns (TypeExpr.convertAll f ts) (List.Forall₂ TypeExpr.LooksLike ts) := by
  cases ts with
  | nil => exact .pure .nil
  | cons t ts =>
    rw [TypeExpr.convertAll]
    exact (TypeExpr.convert_looksLike h t).bind fun _ ht =>
      (TypeExpr.convertAll_looksLike h ts).bind fun _ hs => .pure (.cons ht hs)
theorem TypeExpr.convertFields_looksLike (h : ∀ v, Returns (f v) (SameName v))
    (fields : List (String × TypeExpr V)) :
    Returns (TypeExpr.convertFields f fields) (List.Forall₂ TypeExpr.SameField fields) := by
  rcases fields with _ | ⟨⟨field, t⟩, fields⟩
  · exact .pure .nil
  · rw [TypeExpr.convertFields]
    exact (TypeExpr.convert_looksLike h t).bind fun _ ht =>
      (TypeExpr.convertFields_looksLike h fields).bind fun _ hf => .pure (.cons ⟨rfl, ht⟩ hf)
theorem TypeExpr.convertExtension_looksLike (h : ∀ v, Returns (f v) (SameName v))
    (extension : Option (TypeExpr V)) :
    Returns (TypeExpr.convertExtension f extension) (Option.Rel TypeExpr.LooksLike extension) := by
  cases extension with
  | none => exact .pure .none
  | some t =>
    rw [TypeExpr.convertExtension]
    exact (TypeExpr.convert_looksLike h t).bind fun _ ht => .pure (.some ht)
end

end

section

variable {σ A D V T A' D' V' T' : Type}

theorem convertChannel_name (c : Conversion σ A D V T A' D' V' T')
    (channel : Channel (Expr A D V T) T) :
    Returns (convertChannel c channel) fun channel' => channel.name = channel'.name := by
  cases channel with
  | inbound name type =>
    rw [convertChannel]
    exact .after fun _ => .pure rfl
  | outbound name value type | task name value type =>
    rw [convertChannel]
    exact .after fun _ => .after fun _ => .pure rfl

end

section

variable {σ A A' D' V W : Type} [Named V] [Named W]

/-- What a conversion has to keep so that nothing of it shows. There is no condition on notes, and none
on what the hooks do to the state. -/
structure Conversion.Transparent
    (c : Conversion σ A Empty V (TypeExpr V) A' D' W (TypeExpr W)) : Prop where
  name : ∀ v, Returns (c.name v) (SameName v)
  type : ∀ t, ∃ f : V → StateM σ W, (∀ v, Returns (f v) (SameName v)) ∧
    Returns (c.type t) (CanReturn (t.convert f))
  definition : ∀ d traverse, Returns (c.definition d traverse) (CanReturn traverse)

variable {c : Conversion σ A Empty V (TypeExpr V) A' D' W (TypeExpr W)}

theorem Conversion.Transparent.type_looksLike (h : c.Transparent) (t : TypeExpr V) :
    Returns (c.type t) t.LooksLike := by
  obtain ⟨f, hf, ht⟩ := h.type t
  exact .of_canReturn ht (TypeExpr.convert_looksLike hf t)

variable [Printable D']

mutual
theorem Expr.convert_looksLike (h : c.Transparent) (e : Expr A Empty V (TypeExpr V)) :
    Returns (e.convert c) e.LooksLike := by
  cases e with
  | lit a value =>
    rw [Expr.convert]
    exact .after fun _ => .pure .lit
  | var a name =>
    rw [Expr.convert]
    exact .after fun _ => (h.name name).bind fun _ hn => .pure (.var hn)
  | range a low high =>
    rw [Expr.convert]
    exact .after fun _ => (Expr.convert_looksLike h low).bind fun _ hl =>
      (Expr.convert_looksLike h high).bind fun _ hh => .pure (.range hl hh)
  | list a items =>
    rw [Expr.convert]
    exact .after fun _ => (convertExprs_looksLike h items).bind fun _ hi =>
      .pure (.list hi)
  | binop a op left right =>
    rw [Expr.convert]
    exact .after fun _ => (h.name op).bind fun _ ho =>
      (Expr.convert_looksLike h left).bind fun _ hl =>
        (Expr.convert_looksLike h right).bind fun _ hr => .pure (.binop ho hl hr)
  | lambda a param body =>
    rw [Expr.convert]
    exact .after fun _ => (param.convert_looksLike h.name).bind fun _ hp =>
      (Expr.convert_looksLike h body).bind fun _ hb => .pure (.lambda hp hb)
  | app a func arg =>
    rw [Expr.convert]
    exact .after fun _ => (Expr.convert_looksLike h func).bind fun _ hf =>
      (Expr.convert_looksLike h arg).bind fun _ ha => .pure (.app hf ha)
  | guards a branches =>
    rw [Expr.convert]
    exact .after fun _ => (convertGuards_looksLike h branches).bind fun _ hb =>
      .pure (.guards hb)
  | letIn a defs body =>
    rw [Expr.convert]
    exact .after fun _ => (convertDefs_looksLike h defs).bind fun _ hd =>
      (Expr.convert_looksLike h body).bind fun _ hb => .pure (.letIn hd hb)
  | case a subject branches =>
    rw [Expr.convert]
    exact .after fun _ => (Expr.convert_looksLike h subject).bind fun _ hs =>
      (convertBranches_looksLike h branches).bind fun _ hb => .pure (.case hs hb)
  | data a ctor args =>
    rw [Expr.convert]
    exact .after fun _ => (convertExprs_looksLike h args).bind fun _ ha =>
      .pure (.data ha)
  | access a e field =>
    rw [Expr.convert]
    exact .after fun _ => (Expr.convert_looksLike h e).bind fun _ he =>
      .pure (.access he)
  | remove a e field =>
    rw [Expr.convert]
    exact .after fun _ => (Expr.convert_looksLike h e).bind fun _ he =>
      .pure (.remove he)
  | insert a e field value =>
    rw [Expr.convert]
    exact .after fun _ => (Expr.convert_looksLike h e).bind fun _ he =>
      (Expr.convert_looksLike h value).bind fun _ hv => .pure (.insert he hv)
  | modify a e fields =>
    rw [Expr.convert]
    exact .after fun _ => (Expr.convert_looksLike h e).bind fun _ he =>
      (convertFields_looksLike h fields).bind fun _ hf => .pure (.modify he hf)
  | record a fields =>
    rw [Expr.convert]
    exact .after fun _ => (convertFields_looksLike h fields).bind fun _ hf =>
      .pure (.record hf)
  | channel a channel =>
    rw [Expr.convert]
    exact .after fun _ => (convertChannel_name c channel).bind fun _ hc =>
      .pure (.channel hc)
  | shader a uid source =>
    rw [Expr.convert]
    exact .after fun _ => .pure .shader
theorem Def.convert_looksLike (h : c.Transparent) (d : Def A Empty V (TypeExpr V)) :
    Returns (d.convert c) d.LooksLike := by
  rcases d with ⟨pattern, body, _ | type⟩ | ⟨⟨⟩⟩ <;> rw [Def.convert]
  · exact (pattern.convert_looksLike h.name).bind fun _ hp =>
      (Expr.convert_looksLike h body).bind fun _ hb => .pure (.bind hp hb .none)
  · exact (pattern.convert_looksLike h.name).bind fun _ hp =>
      (Expr.convert_looksLike h body).bind fun _ hb =>
        (h.type_looksLike type).bind fun _ ht => .pure (.bind hp hb (.some fun _ => ht.doc _))
theorem convertExprs_looksLike (h : c.Transparent) (es : List (Expr A Empty V (TypeExpr V))) :
    Returns (convertExprs c es) (List.Forall₂ Expr.LooksLike es) := by
  cases es with
  | nil => exact .pure .nil
  | cons e es =>
    rw [convertExprs]
    exact (Expr.convert_looksLike h e).bind fun _ he =>
      (convertExprs_looksLike h es).bind fun _ hs => .pure (.cons he hs)
theorem convertDefs_looksLike (h : c.Transparent) (ds : List (Def A Empty V (TypeExpr V))) :
    Returns (convertDefs c ds) (List.Forall₂ Def.LooksLike ds) := by
  cases ds with
  | nil => exact .pure .nil
  | cons d ds =>
    rw [convertDefs]
    exact (Returns.of_canReturn (h.definition d _) (Def.convert_looksLike h d)).bind fun _ hd =>
      (convertDefs_looksLike h ds).bind fun _ hs => .pure (.cons hd hs)
theorem convertGuards_looksLike (h : c.Transparent)
    (branches : List (Expr A Empty V (TypeExpr V) × Expr A Empty V (TypeExpr V))) :
    Returns (convertGuards c branches) (List.Forall₂ (SamePart Expr.LooksLike) branches) := by
  rcases branches with _ | ⟨⟨condition, result⟩, branches⟩
  · exact .pure .nil
  · rw [convertGuards]
    exact (Expr.convert_looksLike h condition).bind fun _ hc =>
      (Expr.convert_looksLike h result).bind fun _ hr =>
        (convertGuards_looksLike h branches).bind fun _ hb => .pure (.cons ⟨hc, hr⟩ hb)
theorem convertBranches_looksLike (h : c.Transparent)
    (branches : List (Pattern V × Expr A Empty V (TypeExpr V))) :
    Returns (convertBranches c branches) (List.Forall₂ (SamePart Pattern.LooksLike) branches) := by
  rcases branches with _ | ⟨⟨pattern, result⟩, branches⟩
  · exact .pure .nil
  · rw [convertBranches]
    exact (pattern.convert_looksLike h.name).bind fun _ hp =>
      (Expr.convert_looksLike h result).bind fun _ hr =>
        (convertBranches_looksLike h branches).bind fun _ hb => .pure (.cons ⟨hp, hr⟩ hb)
theorem convertFields_looksLike (h : c.Transparent)
    (fields : List (String × Expr A Empty V (TypeExpr V))) :
    Returns (convertFields c fields) (List.Forall₂ (SamePart Eq) fields) := by
  rcases fields with _ | ⟨⟨field, value⟩, fields⟩
  · exact .pure .nil
  · rw [convertFields]
    exact (Expr.convert_looksLike h value).bind fun _ hv =>
      (convertFields_looksLike h fields).bind fun _ hf => .pure (.cons ⟨rfl, hv⟩ hf)
end

/-- Stated for the names of any phase; from the raw one, it says of each name `n` that both its bare
identifier and its display text remain `n`. -/
theorem Conversion.Transparent.draw_convert (h : c.Transparent) (config : Config)
    (placement : Placement) (canvas : Canvas) (s : σ) :
    (∀ e : Expr A Empty V (TypeExpr V),
      draw config placement ((e.convert c).run s).1 canvas = draw config placement e canvas) ∧
    ∀ d : Def A Empty V (TypeExpr V),
      draw config placement ((d.convert c).run s).1 canvas = draw config placement d canvas := by
  refine ⟨fun e => ?_, fun d => ?_⟩
  · exact congrArg (Doc.draw · canvas) ((Expr.convert_looksLike h e s).doc config placement).symm
  · exact congrArg (Doc.draw · canvas) (Def.convert_looksLike h d s config).symm

end

namespace Resolution

theorem Scope.resolve_sameName {scope : Scope}
    (h : ∀ entry ∈ scope, entry.2.name = entry.1 ∧ entry.2.display = entry.1) (name : RawName) :
    SameName name (scope.resolve name) := by
  unfold resolve
  cases found : scope.lookup name.text with
  | none => exact ⟨rfl, rfl⟩
  | some q =>
    obtain ⟨before, after, rfl, -⟩ := List.lookup_eq_some_iff.mp found
    obtain ⟨hb, hd⟩ := h (name.text, q) (by simp)
    exact ⟨hb.symm, hd.symm⟩

/-- Resolution is transparent where the scope has only names without a qualifier, under their own spelling. -/
theorem transparent {scope : Scope}
    (h : ∀ entry ∈ scope, entry.2.name = entry.1 ∧ entry.2.display = entry.1) :
    (conversion scope).Transparent where
  name v := .after fun _ => .pure (Scope.resolve_sameName h v)
  type _ := ⟨con scope,
    fun v => .after fun _ => .pure (Scope.resolve_sameName h v),
    .after fun _ s => ⟨s, rfl⟩⟩
  definition _ _ := .after fun _ s => ⟨s, rfl⟩

end Resolution

theorem Conversion.Transparent.draw_convert_builtIn :
    let c := Resolution.conversion [("x", .builtIn "x")]
    let zero : ParsedExpr := .lit .synthetic (.int 0)
    let e : ParsedExpr := .lambda .synthetic (.data ⟨"::"⟩ [.var "y", .any])
      (.binop .synthetic ⟨"-"⟩ zero (.var .synthetic ⟨"x"⟩))
    let d : ParsedDef := .bind (.var "f") e (some (.function (.con ⟨"Int"⟩) (.con ⟨"Int"⟩)))
    c.Transparent ∧
      draw ⟨1, 2, 3⟩ .operand ((e.convert c).run .empty).1 ⟨⟨"z"⟩, 1⟩ =
        draw ⟨1, 2, 3⟩ .operand e ⟨⟨"z"⟩, 1⟩ ∧
      draw ⟨1, 2, 3⟩ .operand ((d.convert c).run .empty).1 ⟨⟨"z"⟩, 1⟩ =
        draw ⟨1, 2, 3⟩ .operand d ⟨⟨"z"⟩, 1⟩ := by
  intro c zero e d
  have h : c.Transparent := Resolution.transparent (by decide)
  have same := Conversion.Transparent.draw_convert h ⟨1, 2, 3⟩ .operand ⟨⟨"z"⟩, 1⟩ .empty
  exact ⟨h, same.1 e, same.2 d⟩

end PhaseTree
