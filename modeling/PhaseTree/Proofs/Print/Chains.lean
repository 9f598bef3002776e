import Mathlib.Data.List.Basic
import PhaseTree.Proofs.Layout.Joining
import PhaseTree.Proofs.Print.Parentheses
import PhaseTree.Proofs.Tree.Chains

set_option autoImplicit false

namespace PhaseTree

open Canvas

variable {A D V T : Type} [Named V]

omit [Named V] in
theorem Expr.isCons_eq_false {e : Expr A D V T}
    (h : ∀ a head tail, e ≠ data a Reserved.cons [head, tail]) : e.isCons = false := by
  cases e with
  | data a ctor args =>
    rw [isCons, beq_eq_false_iff_ne, ne_eq, Sugar.of_eq_cons_iff]
    rintro ⟨rfl, hl⟩
    obtain ⟨head, tail, rfl⟩ := List.length_eq_two.1 hl
    exact h a head tail rfl
  | _ => rfl

theorem Pattern.isCons_eq_false {p : Pattern V}
    (h : ∀ name head tail, Named.bare name = Reserved.cons → p ≠ data name [head, tail]) :
    p.isCons = false := by
  cases p with
  | data name args =>
    rw [isCons, beq_eq_false_iff_ne, ne_eq, Sugar.of_eq_cons_iff]
    rintro ⟨hn, hl⟩
    obtain ⟨head, tail, rfl⟩ := List.length_eq_two.1 hl
    exact h name head tail hn rfl
  | _ => rfl

section

variable [Printable D] [Printable T] (config : Config)

theorem Expr.draw_applyAll (func : Expr A D V T) (arg : A × Expr A D V T)
    (args : List (A × Expr A D V T)) (canvas : Canvas) :
    draw config .whole (func.applyAll (arg :: args)) canvas =
      joined " " ((func.doc config (.chained func.isApp)).draw ::
        (arg :: args).map fun arg => draw config .operand arg.2) canvas := by
  have one : ∀ (func : Expr A D V T) (arg : A × Expr A D V T),
      draw config .whole (app arg.1 func arg.2) canvas =
        draw config .operand arg.2 (((func.doc config (.chained func.isApp)).draw canvas).emit " ") :=
    fun func arg => (arg.2.doc_anchored config .operand).draw_separator " " canvas
  induction args generalizing func arg with
  | nil => exact one func arg
  | cons next args ih =>
    change draw config .whole ((app arg.1 func arg.2).applyAll (next :: args)) canvas = _
    rw [ih, List.map_cons, joined_cons_cons, List.map_cons, List.map_cons, joined_cons_cons,
      joined_cons_cons]
    exact congrArg (fun canvas => joined " " _ (canvas.emit " ")) (one func arg)

theorem Expr.draw_lambdas_continuing {body : Expr A D V T} (h : body.isLambda = false) (param : A × Pattern V)
    (params : List (A × Pattern V)) (canvas : Canvas) :
    ((lambdas (param :: params) body).doc config .continuing).draw canvas =
      draw config .whole body
        ((joined " " ((param :: params).map fun param => draw config .operand param.2) canvas).emit
          " -> ") := by
  induction params generalizing param canvas with
  | nil =>
    change ((lambda param.1 param.2 body).doc config .continuing).draw canvas = _
    rw [Expr.doc, h]
    exact (body.doc_anchored config .whole).draw_separator " -> " canvas
  | cons next params ih =>
    have inner := (lambdas (next :: params) body).doc_anchored config .continuing
    exact (inner.draw_separator " " canvas).trans (ih next _)

theorem Expr.draw_consAll {tail : Expr A D V T} (h : tail.isCons = false) (head : A × Expr A D V T)
    (heads : List (A × Expr A D V T)) (canvas : Canvas) :
    draw config .whole (consAll (head :: heads) tail) canvas =
      joined " :: " ((head :: heads).map (fun head => draw config .operand head.2) ++
        [draw config .operand tail]) canvas := by
  induction heads generalizing head canvas with
  | nil =>
    have ht := tail.doc_anchored config (.chained tail.isCons)
    have hd : draw config .whole (consAll [head] tail) canvas =
        (tail.doc config (.chained tail.isCons)).draw ((draw config .operand head.2 canvas).emit " :: ") :=
      ht.draw_separator " :: " canvas
    rwa [h] at hd
  | cons next heads ih =>
    have ht := (consAll (next :: heads) tail).doc_anchored config .whole
    exact (ht.draw_separator " :: " canvas).trans (ih next _)

end

namespace Pattern

theorem doc_cons {name : V} (h : Named.bare name = Reserved.cons) (head tail : Pattern V) :
    (data name [head, tail]).doc .whole =
      head.doc .operand ++ (.text " :: " ++ tail.doc (.chained tail.isCons)) := by
  rw [doc, h]
  rfl

theorem isCons_cons {name : V} (h : Named.bare name = Reserved.cons) (head tail : Pattern V) :
    (data name [head, tail]).isCons = true := by
  rw [isCons, h]
  rfl

theorem draw_consAll (config : Config) {tail : Pattern V} (h : tail.isCons = false)
    (head : V × Pattern V) (heads : List (V × Pattern V))
    (named : ∀ link ∈ head :: heads, Named.bare link.1 = Reserved.cons) (canvas : Canvas) :
    draw config .whole (consAll (head :: heads) tail) canvas =
      joined " :: " ((head :: heads).map (fun head => draw config .operand head.2) ++
        [draw config .operand tail]) canvas := by
  have one : ∀ (head : V × Pattern V) (tail : Pattern V) (canvas : Canvas),
      Named.bare head.1 = Reserved.cons → draw config .whole (data head.1 [head.2, tail]) canvas =
        (tail.doc (.chained tail.isCons)).draw ((draw config .operand head.2 canvas).emit " :: ") := by
    intro head tail canvas hn
    change ((data head.1 [head.2, tail]).doc .whole).draw canvas = _
    rw [doc_cons hn]
    exact (tail.doc_onOneLine _).anchored.draw_separator " :: " canvas
  induction heads generalizing head canvas with
  | nil =>
    have hl := one head tail canvas (named head List.mem_cons_self)
    rwa [h] at hl
  | cons next heads ih =>
    obtain ⟨hn, others⟩ := List.forall_mem_cons.1 named
    have hl := one head (consAll (next :: heads) tail) canvas hn
    have hc : (consAll (next :: heads) tail).isCons = true :=
      isCons_cons (others next List.mem_cons_self) _ _
    rw [hc] at hl
    exact hl.trans (ih next others _)

end Pattern

namespace TypeExpr

theorem draw_argument (config : Config) (t : TypeExpr V) (canvas : Canvas) :
    (t.doc (.ofParens t.isFunction)).draw canvas =
      parensIf t.isFunction (draw config .whole t) canvas := by
  cases t with
  | function argument result =>
    exact ((function argument result).doc_onOneLine .whole).anchored.draw_parens canvas
  | var _ | con _ | app _ _ | record _ _ => rfl

/-- The result may be a function itself, since the arrow associates to the right. -/
theorem draw_functions (config : Config) (args : List (TypeExpr V)) (result : TypeExpr V)
    (canvas : Canvas) : draw config .whole (functions args result) canvas =
      joined " -> " (args.map (fun arg => parensIf arg.isFunction (draw config .whole arg)) ++
        [draw config .whole result]) canvas := by
  induction args generalizing canvas with
  | nil => rfl
  | cons arg args ih =>
    have hr := ((functions args result).doc_onOneLine .whole).anchored
    have hd : draw config .whole (functions (arg :: args) result) canvas =
        draw config .whole (functions args result)
          (((arg.doc (.ofParens arg.isFunction)).draw canvas).emit " -> ") :=
      hr.draw_separator " -> " canvas
    rw [hd, arg.draw_argument config, ih, List.map_cons, List.cons_append, joined_cons (by simp)]

end TypeExpr

/-- Each link is drawn where the one before it ends, and the notes of the nodes between them do not matter. -/
theorem chains_print_flat [Printable D] [Printable T] (config : Config) :
    (∀ (func : Expr A D V T) (args : List (A × Expr A D V T)), func.isApp = false → args ≠ [] →
      ∀ canvas, draw config .whole (func.applyAll args) canvas =
        joined " " (draw config .operand func :: args.map fun arg => draw config .operand arg.2) canvas) ∧
    (∀ (params : List (A × Pattern V)) (body : Expr A D V T), body.isLambda = false → params ≠ [] →
      ∀ canvas, draw config .whole (Expr.lambdas params body) canvas =
        draw config .whole body
          ((joined " " (params.map fun param => draw config .operand param.2) (canvas.emit "\\")).emit
            " -> ")) ∧
    (∀ (heads : List (A × Expr A D V T)) (tail : Expr A D V T),
      (∀ a head last, tail ≠ .data a Reserved.cons [head, last]) → heads ≠ [] →
      ∀ canvas, draw config .whole (Expr.consAll heads tail) canvas =
        joined " :: " (heads.map (fun head => draw config .operand head.2) ++
          [draw config .operand tail]) canvas) ∧
    (∀ (heads : List (V × Pattern V)) (tail : Pattern V),
      (∀ link ∈ heads, Named.bare link.1 = Reserved.cons) →
      (∀ name head last, Named.bare name = Reserved.cons → tail ≠ .data name [head, last]) →
      heads ≠ [] → ∀ canvas, draw config .whole (Pattern.consAll heads tail) canvas =
        joined " :: " (heads.map (fun head => draw config .operand head.2) ++
          [draw config .operand tail]) canvas) ∧
    ∀ (args : List (TypeExpr V)) (result : TypeExpr V) (canvas : Canvas),
      draw config .whole (TypeExpr.functions args result) canvas =
        joined " -> " (args.map (fun arg => parensIf arg.isFunction (draw config .whole arg)) ++
          [draw config .whole result]) canvas := by
  refine ⟨?apps, ?lambdas, ?lists, ?patterns, TypeExpr.draw_functions config⟩
  case apps =>
    intro func args hf ha canvas
    obtain ⟨arg, args, rfl⟩ := List.exists_cons_of_ne_nil ha
    rw [Expr.draw_applyAll, hf]
    rfl
  case lambdas =>
    intro params body hb hp canvas
    obtain ⟨param, params, rfl⟩ := List.exists_cons_of_ne_nil hp
    have hi := (Expr.lambdas (param :: params) body).doc_anchored config .continuing
    change ((Expr.lambda param.1 param.2 (Expr.lambdas params body)).doc config .whole).draw canvas = _
    rw [Expr.doc_lambda_whole]
    exact (hi.draw_append (.text "\\") canvas).trans (Expr.draw_lambdas_continuing config hb param params _)
  case lists =>
    intro heads tail ht hh canvas
    obtain ⟨head, heads, rfl⟩ := List.exists_cons_of_ne_nil hh
    exact Expr.draw_consAll config (Expr.isCons_eq_false ht) head heads canvas
  case patterns =>
    intro heads tail hn ht hh canvas
    obtain ⟨head, heads, rfl⟩ := List.exists_cons_of_ne_nil hh
    exact Pattern.draw_consAll config (Pattern.isCons_eq_false ht) head heads hn canvas

theorem chains_print_flat_nested :
    let x : ParsedExpr := .var .synthetic ⟨"x"⟩
    let args : List (Span × ParsedExpr) := [(⟨0, 1⟩, x), (⟨2, 3⟩, x.applyAll [(⟨4, 5⟩, x)])]
    let params : List (Span × Pattern RawName) := [(⟨0, 1⟩, .any), (⟨2, 3⟩, .var "y")]
    let heads : List (Span × ParsedExpr) := [(⟨0, 1⟩, x), (⟨2, 3⟩, .lambdas params x)]
    let links : List (RawName × Pattern RawName) :=
      [(⟨"::"⟩, .consAll [(⟨"::"⟩, .any)] .any), (⟨"::"⟩, .any)]
    args ≠ [] ∧ params ≠ [] ∧ heads ≠ [] ∧ links ≠ [] ∧
      (∀ link ∈ links, Named.bare link.1 = Reserved.cons) ∧
      format .standard (x.applyAll args) = "x x (x x)" ∧
      format .standard (Expr.lambdas params x) = "\\_ y -> x" ∧
      format .standard (Expr.consAll heads x) = "x :: (\\_ y -> x) :: x" ∧
      format .standard (Pattern.consAll links (.var "y")) = "(_ :: _) :: _ :: y" := by
  intro x args params heads links
  have hargs : args ≠ [] := List.cons_ne_nil _ _
  have hparams : params ≠ [] := List.cons_ne_nil _ _
  have hheads : heads ≠ [] := List.cons_ne_nil _ _
  have hlinks : links ≠ [] := List.cons_ne_nil _ _
  have hnamed : ∀ link ∈ links, Named.bare link.1 = Reserved.cons := by decide
  obtain ⟨apps, lambdas, lists, patterns, -⟩ :=
    @chains_print_flat Span Empty RawName (TypeExpr RawName) _ _ _ .standard
  have happ := congrArg Canvas.text (apps x args rfl hargs .empty)
  have hlambda := congrArg Canvas.text (lambdas params x rfl hparams .empty)
  have hlist := congrArg Canvas.text (lists heads x nofun hheads .empty)
  have hpattern := congrArg Canvas.text (patterns links (.var "y") hnamed nofun hlinks .empty)
  refine ⟨hargs, hparams, hheads, hlinks, hnamed, happ.trans ?_, hlambda.trans ?_, hlist.trans ?_,
    hpattern.trans ?_⟩
  all_goals decide +kernel

end PhaseTree
