import Mathlib.Algebra.Group.Nat.Defs
import PhaseTree.Proofs.Layout.Joining
import PhaseTree.Proofs.Name.Tuples
import PhaseTree.Proofs.Print.Parentheses

set_option autoImplicit false

namespace PhaseTree

open Canvas

variable {A D V T : Type} [Named V] [Printable D] [Printable T]

/-- A tuple has its own parentheses in every placement, and its components need none. -/
theorem Expr.draw_tuple (config : Config) (placement : Placement) (a : A)
    (components : List (Expr A D V T)) (canvas : Canvas) :
    draw config placement (tuple a components) canvas =
      (joined ", " (components.map (draw config .whole)) (canvas.emit "(")).emit ")" := by
  have parts := exprDocs_anchored config .whole components
  have hd : draw config placement (tuple a components) canvas =
      (Doc.separated ", " (exprDocs config .whole components)).parens.draw canvas := by
    change ((tuple a components).doc config placement).draw canvas = _
    rw [tuple, Expr.doc, Sugar.of_tuple]
  rw [hd, (Doc.anchored_separated parts).draw_parens, Doc.draw_separated parts, exprDocs_eq, List.map_map]
  rfl

/-- The name of a tuple is recognised, tells the arity and is no other reserved name, and only the
components are shown. What is recognised is the stem with any numeral behind it; the names of arities that
a machine word holds are those without a zero that could be left out. -/
theorem tuples_named_and_printed (config : Config) :
    (∀ (a : A) (components : List (Expr A D V T)),
      (∃ name, Expr.tuple a components = .data a name components ∧
        Reserved.isTupleName name = true ∧ Reserved.arity? name = some components.length ∧
        Reserved.isOperator name = false ∧ name ≠ Reserved.cons ∧ name ≠ Reserved.nil) ∧
      ∀ placement canvas, draw config placement (Expr.tuple a components) canvas =
        (joined ", " (components.map (draw config .whole)) (canvas.emit "(")).emit ")") ∧
    Function.Injective Reserved.tupleName ∧
    ∀ name : String,
      (Reserved.isTupleName name = true ↔ ∃ digits : List Char,
        name.toList = "_Tuple".toList ++ digits ∧ digits ≠ [] ∧ ∀ c ∈ digits, c.isDigit = true) ∧
      ((∃ arity < 2 ^ 64, name = Reserved.tupleName arity) ↔ ∃ digits : List Char,
        name.toList = "_Tuple".toList ++ digits ∧ (digits ≠ [] ∧ ∀ c ∈ digits, c.isDigit = true) ∧
          (digits.head? = some '0' → digits = ['0']) ∧ Nat.ofDigitChars 10 digits 0 < 2 ^ 64) := by
  refine ⟨fun a components => ⟨⟨_, rfl, ?_⟩, fun placement => Expr.draw_tuple config placement a components⟩,
    Reserved.tupleName_injective, fun name => ⟨?_, ?_⟩⟩
  · have recognised := Reserved.isTupleName_tupleName components.length
    refine ⟨recognised, Reserved.arity?_tupleName _, Reserved.isOperator_of_isTupleName recognised, ?_, ?_⟩
    · intro same
      rw [same, Reserved.isTupleName_cons] at recognised
      contradiction
    · intro same
      rw [same, Reserved.isTupleName_nil] at recognised
      contradiction
  · simp only [Reserved.isTupleName_iff, Reserved.isNumeral_iff]
    rfl
  · simp only [Reserved.eq_tupleName_iff, Reserved.isNumeral_iff]
    constructor
    · rintro ⟨arity, fits, digits, hn, numeral, shortest, rfl⟩
      exact ⟨digits, hn, numeral, shortest, fits⟩
    · rintro ⟨digits, hn, numeral, shortest, fits⟩
      exact ⟨_, fits, digits, hn, numeral, shortest, rfl⟩

end PhaseTree
