import PhaseTree.Proofs.Layout.Flat

set_option autoImplicit false

namespace PhaseTree.Doc

def Anchored : Doc → Prop
  | empty => True
  | text _ => True
  | newline _ => False
  | append first second => first.Anchored ∧ second.Anchored
  | align _ => True

@[simp] theorem anchored_text (s : String) : (text s).Anchored := trivial

@[simp] theorem anchored_append (first second : Doc) :
    (first ++ second).Anchored ↔ first.Anchored ∧ second.Anchored := Iff.rfl

@[simp] theorem anchored_align (body : Doc) : (align body).Anchored := trivial

@[simp] theorem anchored_between (opening closing : String) (body : Doc) :
    (between opening closing body).Anchored ↔ body.Anchored := by
  simp [between]

theorem anchored_separated {separator : String} {docs : List Doc} (h : ∀ doc ∈ docs, doc.Anchored) :
    (separated separator docs).Anchored :=
  separated_closed trivial (fun _ _ h h' => ⟨h, h'⟩) trivial h

@[simp] theorem anchored_concat (docs : List Doc) :
    (concat docs).Anchored ↔ ∀ doc ∈ docs, doc.Anchored := by
  induction docs with
  | nil => simp [concat, Anchored]
  | cons doc docs ih => simp [concat, ih]

@[simp] theorem anchored_applied (head : Doc) (args : List Doc) :
    (applied head args).Anchored ↔ head.Anchored ∧ ∀ arg ∈ args, arg.Anchored := by
  simp [applied]

theorem OnOneLine.anchored {doc : Doc} (h : doc.OnOneLine) : doc.Anchored := by
  induction doc with
  | append first second ih ih' => exact ⟨ih h.1, ih' h.2⟩
  | newline indent => exact h
  | empty | text _ | align _ => trivial

theorem Anchored.render_eq {doc : Doc} (h : doc.Anchored) (anchor anchor' : Nat) (canvas : Canvas) :
    doc.render anchor canvas = doc.render anchor' canvas := by
  induction doc generalizing canvas with
  | newline indent => exact h.elim
  | append first second ih ih' =>
    rw [render, render, ih h.1, ih' h.2]
  | empty | text _ | align _ => rfl

/-- Between parentheses, a document begins one column later. -/
theorem Anchored.draw_parens {body : Doc} (h : body.Anchored) (canvas : Canvas) :
    body.parens.draw canvas = (body.draw (canvas.emit "(")).emit ")" :=
  congrArg (Canvas.emit ")") (h.render_eq canvas.column _ (canvas.emit "("))

end PhaseTree.Doc
