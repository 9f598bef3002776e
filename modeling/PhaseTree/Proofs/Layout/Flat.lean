import PhaseTree.Layout.Doc

set_option autoImplicit false

namespace PhaseTree.Doc

/-- The characters of a document in order, line breaks without their indentation. -/
def flat : Doc → List Char
  | empty => []
  | text s => s.toList
  | newline _ => ['\n']
  | append first second => first.flat ++ second.flat
  | align body => body.flat

def OnOneLine : Doc → Prop
  | empty => True
  | text _ => True
  | newline _ => False
  | append first second => first.OnOneLine ∧ second.OnOneLine
  | align body => body.OnOneLine

@[simp] theorem flat_text (s : String) : (text s).flat = s.toList := rfl

@[simp] theorem flat_append (first second : Doc) : (first ++ second).flat = first.flat ++ second.flat :=
  rfl

@[simp] theorem flat_newline (indent : Nat) : (newline indent).flat = ['\n'] := rfl

@[simp] theorem flat_align (body : Doc) : (align body).flat = body.flat := rfl

@[simp] theorem flat_concat (docs : List Doc) : (concat docs).flat = (docs.map flat).flatten := by
  induction docs with
  | nil => rfl
  | cons doc docs ih => simp [concat, ih]

theorem flat_separated (separator : String) (docs : List Doc) :
    (separated separator docs).flat = separator.toList.intercalate (docs.map flat) := by
  induction docs with
  | nil => rfl
  | cons doc docs ih =>
    cases docs with
    | nil => simp [separated]
    | cons next docs =>
      have hs : (separated separator (doc :: next :: docs)).flat =
          doc.flat ++ (separator.toList ++ (separated separator (next :: docs)).flat) := rfl
      rw [hs, ih]
      simp [List.intercalate_cons_cons]

@[simp] theorem flat_between (opening closing : String) (body : Doc) :
    (between opening closing body).flat = opening.toList ++ (body.flat ++ closing.toList) := rfl

theorem flat_parens (body : Doc) : (parens body).flat = '(' :: (body.flat ++ [')']) := rfl

theorem flat_applied (head : Doc) (args : List Doc) :
    (applied head args).flat = head.flat ++ args.flatMap fun arg => ' ' :: arg.flat := by
  rw [applied, flat_append, flat_concat, List.map_map]
  rfl

@[simp] theorem onOneLine_text (s : String) : (text s).OnOneLine := trivial

@[simp] theorem onOneLine_append (first second : Doc) :
    (first ++ second).OnOneLine ↔ first.OnOneLine ∧ second.OnOneLine := Iff.rfl

@[simp] theorem onOneLine_between (opening closing : String) (body : Doc) :
    (between opening closing body).OnOneLine ↔ body.OnOneLine := by
  simp [between]

@[simp] theorem onOneLine_parens (body : Doc) : (parens body).OnOneLine ↔ body.OnOneLine :=
  onOneLine_between _ _ body

@[simp] theorem onOneLine_brackets (body : Doc) : (brackets body).OnOneLine ↔ body.OnOneLine :=
  onOneLine_between _ _ body

@[simp] theorem onOneLine_braces (body : Doc) : (braces body).OnOneLine ↔ body.OnOneLine :=
  onOneLine_between _ _ body

theorem onOneLine_separated {separator : String} {docs : List Doc} (h : ∀ doc ∈ docs, doc.OnOneLine) :
    (separated separator docs).OnOneLine :=
  separated_closed trivial (fun _ _ h h' => ⟨h, h'⟩) trivial h

@[simp] theorem onOneLine_parensIf (wanted : Bool) (body : Doc) :
    (parensIf wanted body).OnOneLine ↔ body.OnOneLine := by
  cases wanted <;> simp [parensIf]

@[simp] theorem onOneLine_concat (docs : List Doc) :
    (concat docs).OnOneLine ↔ ∀ doc ∈ docs, doc.OnOneLine := by
  induction docs with
  | nil => simp [concat, OnOneLine]
  | cons doc docs ih => simp [concat, ih]

@[simp] theorem onOneLine_applied (head : Doc) (args : List Doc) :
    (applied head args).OnOneLine ↔ head.OnOneLine ∧ ∀ arg ∈ args, arg.OnOneLine := by
  simp [applied]

theorem render_flat (doc : Doc) (h : doc.OnOneLine) (anchor : Nat) (canvas : Canvas) :
    (doc.render anchor canvas).text.toList = canvas.text.toList ++ doc.flat := by
  induction doc generalizing anchor canvas with
  | empty => simp [render, flat]
  | text s => simp [render, flat, Canvas.text_emit]
  | newline indent => exact h.elim
  | append first second ih ih' =>
    rw [render, ih' h.2, ih h.1, flat, List.append_assoc]
  | align body ih => exact ih h canvas.column canvas

theorem flat_eq_of_text_eq {doc doc' : Doc} {canvas : Canvas} (h : doc.OnOneLine) (h' : doc'.OnOneLine)
    (same : (doc.draw canvas).text = (doc'.draw canvas).text) : doc.flat = doc'.flat := by
  have ht := doc.render_flat h canvas.column canvas
  have ht' := doc'.render_flat h' canvas.column canvas
  exact List.append_cancel_left (ht.symm.trans ((congrArg String.toList same).trans ht'))

theorem toText_flat (doc : Doc) (h : doc.OnOneLine) : doc.toText.toList = doc.flat := by
  have hr := doc.render_flat h 0 .empty
  exact hr

end PhaseTree.Doc
