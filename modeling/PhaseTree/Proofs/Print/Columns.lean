import PhaseTree.Proofs.Layout.Columns
import PhaseTree.Proofs.Print.Unbroken

set_option autoImplicit false

namespace PhaseTree

class Labelled (α : Type) where
  labels : α → List String

section

variable {A V : Type} [Named V]

instance : Labelled (Expr A Empty V (TypeExpr V)) := ⟨Expr.labels⟩

instance : Labelled (Def A Empty V (TypeExpr V)) := ⟨Def.labels⟩

instance : Labelled (Pattern V) := ⟨Pattern.labels⟩

instance : Labelled (TypeExpr V) := ⟨TypeExpr.labels⟩

end

instance : Labelled Literal := ⟨fun _ => []⟩

instance : Labelled RawName := ⟨fun name => [Named.display name]⟩

instance : Labelled QualifiedName := ⟨fun name => [Named.display name]⟩

instance : Labelled String := ⟨fun name => [name]⟩

instance {α : Type} [Labelled α] : Labelled (Listing α) :=
  ⟨fun listing => listing.items.flatMap Labelled.labels⟩

instance : Labelled Export where
  labels
    | .value name => [name]
    | .typeAlias name => [name]
    | .union name constructors => name :: Labelled.labels constructors

/-- Unless a name does, no text breaks a line. -/
def PrintsUnbroken (α : Type) [Printable α] [Labelled α] : Prop :=
  ∀ value : α, (∀ label ∈ Labelled.labels value, Unbroken label) →
    ∀ config placement, (Printable.doc config placement value).Unbroken

def KeepsStep (α : Type) [Printable α] [Labelled α] : Prop :=
  ∀ value : α, (∀ label ∈ Labelled.labels value, Unbroken label) →
    ∀ (config : Config) (placement : Placement) (canvas : Canvas), canvas.InStep →
      (draw config placement value canvas).InStep

namespace PrintsUnbroken

variable {α : Type} [Printable α] [Labelled α]

theorem keepsStep (h : PrintsUnbroken α) : KeepsStep α := by
  intro value hl config placement canvas hc
  exact Doc.render_inStep (h value hl config placement) canvas.column hc

theorem listing (h : PrintsUnbroken α) : PrintsUnbroken (Listing α) := by
  rintro ⟨items, isOpen⟩ hl config placement
  have hitems : ∀ doc ∈ items.map (Printable.doc config .whole), doc.Unbroken := by
    refine List.forall_mem_map.2 fun item hm => h item (fun label hlabel => ?_) config .whole
    exact hl label (List.mem_flatMap.2 ⟨item, hm, hlabel⟩)
  have dots : (Doc.text "..").Unbroken := (by decide : Unbroken "..")
  change (Listing.doc (Printable.doc config .whole) ⟨items, isOpen⟩).Unbroken
  rw [Listing.doc, Doc.unbroken_parens]
  refine Doc.unbroken_separated (by decide) ?_
  cases isOpen with
  | true => exact List.forall_mem_append.2 ⟨hitems, List.forall_mem_singleton.2 dots⟩
  | false => exact hitems

end PrintsUnbroken

theorem RawName.printsUnbroken : PrintsUnbroken RawName := fun _ h _ _ => h _ List.mem_cons_self

theorem QualifiedName.printsUnbroken : PrintsUnbroken QualifiedName :=
  fun _ h _ _ => h _ List.mem_cons_self

theorem printsUnbroken_bare : PrintsUnbroken String :=
  fun name h _ _ => unbroken_bareDoc name (h name List.mem_cons_self)

theorem Export.printsUnbroken : PrintsUnbroken Export := by
  intro value h config placement
  cases value with
  | value name => exact unbroken_bareDoc name (h name List.mem_cons_self)
  | typeAlias name => exact h name List.mem_cons_self
  | union name constructors =>
    obtain ⟨hn, hc⟩ := List.forall_mem_cons.1 h
    exact ⟨hn, printsUnbroken_bare.listing constructors hc config .whole⟩

theorem Literal.printsUnbroken : PrintsUnbroken Literal :=
  fun value _ _ placement => unbroken_literal placement value

section

variable {A V : Type} [Named V]

theorem Pattern.printsUnbroken : PrintsUnbroken (Pattern V) :=
  fun p h _ placement => p.doc_unbroken placement h

theorem TypeExpr.printsUnbroken : PrintsUnbroken (TypeExpr V) :=
  fun t h _ placement => t.doc_unbroken placement h

theorem Expr.printsUnbroken : PrintsUnbroken (Expr A Empty V (TypeExpr V)) :=
  fun e h config placement => e.doc_unbroken config placement h

theorem Def.printsUnbroken : PrintsUnbroken (Def A Empty V (TypeExpr V)) :=
  fun d h config _ => d.doc_unbroken config h

/-- The column is the one that has been reached: after each operation of a script, and after printing. -/
theorem column_inStep :
    (∀ script : List Script, (∀ fragment ∈ Script.fragmentsAll script, Unbroken fragment) →
      ∀ canvas ∈ (Script.perform script).past, canvas.InStep) ∧
    (KeepsStep (Expr A Empty V (TypeExpr V)) ∧ KeepsStep (Def A Empty V (TypeExpr V)) ∧
      KeepsStep (Pattern V) ∧ KeepsStep (TypeExpr V) ∧ KeepsStep Literal) ∧
    (KeepsStep RawName ∧ KeepsStep QualifiedName ∧ KeepsStep String ∧ KeepsStep Export) ∧
    (KeepsStep (Listing RawName) ∧ KeepsStep (Listing QualifiedName) ∧ KeepsStep (Listing String) ∧
      KeepsStep (Listing Export) ∧ KeepsStep (Listing (Pattern V)) ∧
      KeepsStep (Listing (TypeExpr V))) := by
  refine ⟨fun script h => (Script.perform_inStep h).before, ⟨?_, ?_, ?_, ?_, ?_⟩, ⟨?_, ?_, ?_, ?_⟩,
    ⟨?_, ?_, ?_, ?_, ?_, ?_⟩⟩
  all_goals apply PrintsUnbroken.keepsStep
  · exact Expr.printsUnbroken
  · exact Def.printsUnbroken
  · exact Pattern.printsUnbroken
  · exact TypeExpr.printsUnbroken
  · exact Literal.printsUnbroken
  · exact RawName.printsUnbroken
  · exact QualifiedName.printsUnbroken
  · exact printsUnbroken_bare
  · exact Export.printsUnbroken
  · exact RawName.printsUnbroken.listing
  · exact QualifiedName.printsUnbroken.listing
  · exact printsUnbroken_bare.listing
  · exact Export.printsUnbroken.listing
  · exact Pattern.printsUnbroken.listing
  · exact TypeExpr.printsUnbroken.listing

end

theorem column_inStep_literal :
    let script : List Script := [.separated "é, " [[.emit "∀"], [.newlineBy 2, .parens true [.emit "x"]]]]
    let broken : ParsedExpr := .lit .synthetic (.text "é\n")
    let e : ParsedExpr := .letIn .synthetic [.bind (.var "f") broken (some (.con ⟨"T"⟩))] broken
    (∀ fragment ∈ Script.fragmentsAll script, Unbroken fragment) ∧
      (∀ label ∈ Labelled.labels e, Unbroken label) ∧
      (∀ canvas ∈ (Script.perform script).past, canvas.InStep) ∧
      (draw .standard .operand e (Canvas.empty.emit "x = ")).InStep := by
  intro script broken e
  have hscript : ∀ fragment ∈ Script.fragmentsAll script, Unbroken fragment := by decide
  have hlabels : ∀ label ∈ Labelled.labels e, Unbroken label := by decide
  have hstart : (Canvas.empty.emit "x = ").InStep := by decide
  obtain ⟨scripts, ⟨exprs, -⟩, -⟩ := @column_inStep Span RawName _
  exact ⟨hscript, hlabels, scripts script hscript, exprs e hlabels .standard .operand _ hstart⟩

end PhaseTree
