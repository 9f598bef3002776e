import Mathlib.Algebra.GroupWithZero.Nat
import PhaseTree.Proofs.Layout.Flat
import PhaseTree.Proofs.Layout.Pieces

set_option autoImplicit false

namespace PhaseTree.Doc

def breaks : Doc → Nat
  | empty => 0
  | text _ => 0
  | newline _ => 1
  | append first second => first.breaks + second.breaks
  | align body => body.breaks

@[simp] theorem breaks_text (s : String) : (text s).breaks = 0 := rfl

@[simp] theorem breaks_newline (indent : Nat) : (newline indent).breaks = 1 := rfl

@[simp] theorem breaks_append (first second : Doc) :
    (first ++ second).breaks = first.breaks + second.breaks := rfl

@[simp] theorem breaks_align (body : Doc) : (align body).breaks = body.breaks := rfl

@[simp] theorem breaks_between (opening closing : String) (body : Doc) :
    (between opening closing body).breaks = body.breaks := by
  simp [between]

@[simp] theorem breaks_parens (body : Doc) : (parens body).breaks = body.breaks :=
  breaks_between _ _ body

@[simp] theorem breaks_brackets (body : Doc) : (brackets body).breaks = body.breaks :=
  breaks_between _ _ body

@[simp] theorem breaks_braces (body : Doc) : (braces body).breaks = body.breaks :=
  breaks_between _ _ body

@[simp] theorem breaks_concat (docs : List Doc) : (concat docs).breaks = (docs.map breaks).sum := by
  induction docs with
  | nil => rfl
  | cons doc docs ih => simp [concat, ih]

@[simp] theorem breaks_separated (separator : String) (docs : List Doc) :
    (separated separator docs).breaks = (docs.map breaks).sum := by
  induction docs with
  | nil => rfl
  | cons doc docs ih =>
    cases docs with
    | nil => simp [separated]
    | cons next docs => simp [separated, ih]

@[simp] theorem breaks_applied (head : Doc) (args : List Doc) :
    (applied head args).breaks = head.breaks + (args.map breaks).sum := by
  simp [applied, Function.comp_def]

theorem OnOneLine.breaks {doc : Doc} (h : doc.OnOneLine) : doc.breaks = 0 := by
  induction doc with
  | empty => rfl
  | text s => rfl
  | newline indent => exact h.elim
  | append first second ih ih' =>
    change first.breaks + second.breaks = 0
    rw [ih h.1, ih' h.2]
  | align body ih => exact ih h

theorem count_piece (doc : Doc) (h : doc.Unbroken) (anchor column : Nat) :
    (doc.piece anchor column).count '\n' = doc.breaks := by
  induction doc generalizing anchor column with
  | empty => rfl
  | text s =>
    rw [piece_text]
    exact List.count_eq_zero_of_not_mem h
  | newline indent =>
    rw [piece_newline, List.count_cons_self, List.count_replicate]
    rfl
  | append first second ih ih' =>
    obtain ⟨middle, hp⟩ := piece_append first second anchor column
    change ((first ++ second).piece anchor column).count '\n' = first.breaks + second.breaks
    rw [hp, List.count_append, ih h.1, ih' h.2]
  | align body ih => exact ih h column column

end PhaseTree.Doc
