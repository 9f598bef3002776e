import PhaseTree.Proofs.Layout.Relocation

set_option autoImplicit false

namespace PhaseTree.Doc

variable {P Q R : List Char → Prop}

/-- The characters that are added from `column` on. -/
def piece (doc : Doc) (anchor column : Nat) : List Char :=
  (doc.render anchor ⟨.empty, column⟩).text.toList

def stop (doc : Doc) (anchor column : Nat) : Nat := (doc.render anchor ⟨.empty, column⟩).column

theorem render_adds (doc : Doc) (anchor column : Nat) : ∃ piece column', ∀ text,
    doc.render anchor ⟨⟨text⟩, column⟩ = ⟨⟨text ++ piece⟩, column'⟩ := by
  induction doc generalizing anchor column with
  | empty => exact ⟨"", column, fun text => by simp [render]⟩
  | text s => exact ⟨s, column + s.length, fun _ => rfl⟩
  | newline indent => exact ⟨lineStart (anchor + indent), anchor + indent, fun _ => newlineAt_eq _ _ _⟩
  | append first second ih ih' =>
    obtain ⟨piece, middle, hf⟩ := ih anchor column
    obtain ⟨piece', last, hs⟩ := ih' anchor middle
    refine ⟨piece ++ piece', last, fun text => ?_⟩
    rw [render, hf, hs, String.append_assoc]
  | align body ih => exact ih column column

theorem text_render (doc : Doc) (anchor : Nat) (canvas : Canvas) :
    (doc.render anchor canvas).text.toList =
      canvas.text.toList ++ doc.piece anchor canvas.column := by
  obtain ⟨added, column, h⟩ := doc.render_adds anchor canvas.column
  have hp : doc.piece anchor canvas.column = added.toList := by
    change (doc.render anchor ⟨⟨""⟩, canvas.column⟩).text.toList = _
    rw [h]
    simp [Canvas.text]
  have hc : doc.render anchor canvas = ⟨⟨canvas.text ++ added⟩, column⟩ := h canvas.text
  rw [hp, hc]
  exact String.toList_append

theorem text_draw (doc : Doc) (canvas : Canvas) : (doc.draw canvas).text =
    canvas.text ++ String.ofList (doc.piece canvas.column canvas.column) := by
  apply String.toList_injective
  rw [String.toList_append, String.toList_ofList]
  exact doc.text_render canvas.column canvas

theorem column_render (doc : Doc) (anchor : Nat) (canvas : Canvas) :
    (doc.render anchor canvas).column = doc.stop anchor canvas.column := by
  obtain ⟨added, column, h⟩ := doc.render_adds anchor canvas.column
  have hs : doc.stop anchor canvas.column = column := congrArg Canvas.column (h "")
  have hc : doc.render anchor canvas = ⟨⟨canvas.text ++ added⟩, column⟩ := h canvas.text
  rw [hs, hc]

theorem piece_append_stop (first second : Doc) (anchor column : Nat) :
    (first ++ second).piece anchor column =
      first.piece anchor column ++ second.piece anchor (first.stop anchor column) :=
  second.text_render anchor (first.render anchor ⟨.empty, column⟩)

theorem stop_append (first second : Doc) (anchor column : Nat) :
    (first ++ second).stop anchor column = second.stop anchor (first.stop anchor column) :=
  second.column_render anchor (first.render anchor ⟨.empty, column⟩)

theorem piece_append (first second : Doc) (anchor column : Nat) : ∃ middle,
    (first ++ second).piece anchor column =
      first.piece anchor column ++ second.piece anchor middle :=
  ⟨_, piece_append_stop first second anchor column⟩

theorem piece_text (s : String) (anchor column : Nat) : (text s).piece anchor column = s.toList := by
  rw [piece, render, Canvas.text_emit]
  simp [Canvas.text, Sink.empty]

theorem piece_newline (indent anchor column : Nat) :
    (newline indent).piece anchor column = '\n' :: List.replicate (anchor + indent) ' ' := by
  rw [piece, render, Sink.empty, newlineAt_eq]
  simp [Canvas.text, lineStart]

/-- Wherever the document stands, what it adds has the property. -/
def Always (P : List Char → Prop) (doc : Doc) : Prop :=
  ∀ anchor column, P (doc.piece anchor column)

theorem Always.mono {doc : Doc} (h : doc.Always P) (hq : ∀ cs, P cs → Q cs) : doc.Always Q :=
  fun anchor column => hq _ (h anchor column)

theorem always_empty (h : P []) : empty.Always P := fun _ _ => h

theorem always_text {s : String} (h : P s.toList) : (text s).Always P := by
  intro anchor column
  rw [piece_text]
  exact h

theorem always_newline (indent : Nat) (h : ∀ width, P ('\n' :: List.replicate width ' ')) :
    (newline indent).Always P := by
  intro anchor column
  rw [piece_newline]
  exact h _

theorem Always.append {first second : Doc} (hf : first.Always P) (hs : second.Always Q)
    (hr : ∀ cs cs', P cs → Q cs' → R (cs ++ cs')) : (first ++ second).Always R := by
  intro anchor column
  obtain ⟨middle, h⟩ := piece_append first second anchor column
  rw [h]
  exact hr _ _ (hf anchor column) (hs anchor middle)

theorem Always.align {body : Doc} (h : body.Always P) : (align body).Always P :=
  fun _ column => h column column

end PhaseTree.Doc
