import PhaseTree.Print.Expr
import PhaseTree.Proofs.Layout.Flat

set_option autoImplicit false

namespace PhaseTree

namespace Placement

@[simp] theorem onOneLine_wrap (placement : Placement) (doc : Doc) :
    (placement.wrap doc).OnOneLine ↔ doc.OnOneLine := by
  cases placement <;> simp [wrap]

@[simp] theorem onOneLine_wrapIf (compound : Bool) (placement : Placement) (doc : Doc) :
    (placement.wrapIf compound doc).OnOneLine ↔ doc.OnOneLine := by
  cases compound <;> simp [wrapIf]

end Placement

variable {V : Type} [Named V]

theorem onOneLine_nameDoc (name : V) : (nameDoc name).OnOneLine := by
  simp [nameDoc]

theorem onOneLine_bareDoc (name : String) : (bareDoc name).OnOneLine := by
  simp [bareDoc]

theorem onOneLine_infixDoc (name : V) : (infixDoc name).OnOneLine := by
  unfold infixDoc
  split <;> simp

theorem onOneLine_literal (placement : Placement) (value : Literal) :
    (value.doc placement).OnOneLine := by
  simp [Literal.doc]

mutual
theorem Pattern.doc_onOneLine (placement : Placement) (p : Pattern V) :
    (p.doc placement).OnOneLine := by
  cases p with
  | data name args =>
    rw [Pattern.doc]
    split
    · simpa using Doc.onOneLine_separated (Pattern.consDocs_onOneLine args)
    · trivial
    · simpa using Doc.onOneLine_separated (Pattern.docs_onOneLine .whole args)
    · simpa using Pattern.docs_onOneLine .operand args
  | record fields =>
    rw [Pattern.doc, Doc.onOneLine_braces]
    exact Doc.onOneLine_separated (List.forall_mem_map.2 fun _ _ => trivial)
  | named name inner =>
    have hi := Pattern.doc_onOneLine .operand inner
    simpa [Pattern.doc, hi] using onOneLine_bareDoc name
  | var name => exact onOneLine_bareDoc name
  | any => trivial
  | lit value => exact onOneLine_literal placement value
theorem Pattern.docs_onOneLine (placement : Placement) (ps : List (Pattern V)) :
    ∀ doc ∈ Pattern.docs placement ps, doc.OnOneLine := by
  cases ps with
  | nil => simp [Pattern.docs]
  | cons p ps =>
    rw [Pattern.docs, List.forall_mem_cons]
    exact ⟨Pattern.doc_onOneLine placement p, Pattern.docs_onOneLine placement ps⟩
theorem Pattern.consDocs_onOneLine (ps : List (Pattern V)) :
    ∀ doc ∈ Pattern.consDocs ps, doc.OnOneLine := by
  cases ps with
  | nil => simp [Pattern.consDocs]
  | cons p ps =>
    rw [Pattern.consDocs, List.forall_mem_cons]
    exact ⟨Pattern.doc_onOneLine _ p, Pattern.consDocs_onOneLine ps⟩
end

mutual
theorem TypeExpr.doc_onOneLine (placement : Placement) (t : TypeExpr V) :
    (t.doc placement).OnOneLine := by
  cases t with
  | function argument result =>
    have ha := TypeExpr.doc_onOneLine (.ofParens argument.isFunction) argument
    have hr := TypeExpr.doc_onOneLine .whole result
    simp [TypeExpr.doc, ha, hr]
  | var name => trivial
  | con name => trivial
  | app head args =>
    have hh := TypeExpr.doc_onOneLine .operand head
    rw [TypeExpr.doc]
    split
    · simpa using Doc.onOneLine_separated (TypeExpr.docs_onOneLine .whole args)
    · simpa [hh] using TypeExpr.docs_onOneLine .operand args
  | record fields extension =>
    have he := TypeExpr.extensionDoc_onOneLine extension
    have hf : (Doc.separated ", " (TypeExpr.fieldDocs fields)).OnOneLine :=
      Doc.onOneLine_separated (TypeExpr.fieldDocs_onOneLine fields)
    rw [TypeExpr.doc]
    split
    · trivial
    · simp [he, hf]
termination_by structural t
theorem TypeExpr.docs_onOneLine (placement : Placement) (ts : List (TypeExpr V)) :
    ∀ doc ∈ TypeExpr.docs placement ts, doc.OnOneLine := by
  cases ts with
  | nil => simp [TypeExpr.docs]
  | cons t ts =>
    rw [TypeExpr.docs, List.forall_mem_cons]
    exact ⟨TypeExpr.doc_onOneLine placement t, TypeExpr.docs_onOneLine placement ts⟩
termination_by structural ts
theorem TypeExpr.fieldDocs_onOneLine (fields : List (String × TypeExpr V)) :
    ∀ doc ∈ TypeExpr.fieldDocs fields, doc.OnOneLine := by
  rcases fields with _ | ⟨⟨field, t⟩, fields⟩
  · simp [TypeExpr.fieldDocs]
  · rw [TypeExpr.fieldDocs, List.forall_mem_cons]
    exact ⟨⟨trivial, trivial, TypeExpr.doc_onOneLine .whole t⟩, TypeExpr.fieldDocs_onOneLine fields⟩
termination_by structural fields
theorem TypeExpr.extensionDoc_onOneLine (extension : Option (TypeExpr V)) :
    (TypeExpr.extensionDoc extension).OnOneLine := by
  cases extension with
  | none => trivial
  | some t => exact ⟨TypeExpr.doc_onOneLine .whole t, trivial⟩
termination_by structural extension
end

end PhaseTree
