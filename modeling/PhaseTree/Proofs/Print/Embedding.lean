import PhaseTree.Proofs.Print.Unbroken

set_option autoImplicit false

namespace PhaseTree

def Relocatable {α : Type} [Printable α] (value : α) : Prop :=
  ∀ (config : Config) (placement : Placement) (canvas : Canvas),
    (draw config placement value canvas).text =
      canvas.text ++ hang canvas.column (draw config placement value .empty).text ∧
    (draw config placement value canvas).column =
      canvas.column + (draw config placement value .empty).column

theorem printed_relocatable {A V : Type} [Named V] :
    (∀ e : Expr A Empty V (TypeExpr V), (∀ label ∈ e.labels, Unbroken label) → Relocatable e) ∧
    (∀ d : Def A Empty V (TypeExpr V), (∀ label ∈ d.labels, Unbroken label) → Relocatable d) ∧
    (∀ p : Pattern V, (∀ label ∈ p.labels, Unbroken label) → Relocatable p) ∧
    ∀ t : TypeExpr V, (∀ label ∈ t.labels, Unbroken label) → Relocatable t := by
  refine ⟨fun e h => ?_, fun d h => ?_, fun p h => ?_, fun t h => ?_⟩
  all_goals intro config placement canvas
  · exact Doc.draw_move _ (e.doc_unbroken config placement h) canvas
  · exact Doc.draw_move _ (d.doc_unbroken config h) canvas
  · exact Doc.draw_move _ (p.doc_unbroken placement h) canvas
  · exact Doc.draw_move _ (t.doc_unbroken placement h) canvas

theorem printed_relocatable_let :
    let subject : ParsedExpr := .var .synthetic ⟨"x"⟩
    let body : ParsedExpr := .case .synthetic subject [(.any, .lit .synthetic (.text "a\nb"))]
    let e : ParsedExpr := .letIn .synthetic [.bind (.var "f") body (some (.con ⟨"T"⟩))] subject
    (∀ label ∈ e.labels, Unbroken label) ∧ Relocatable e := by
  intro subject body e
  have h : ∀ label ∈ e.labels, Unbroken label := by decide
  exact ⟨h, printed_relocatable.1 e h⟩

end PhaseTree
