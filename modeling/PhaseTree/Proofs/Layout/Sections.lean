import PhaseTree.Proofs.Layout.Anchoring
import PhaseTree.Proofs.Layout.Columns
import PhaseTree.Proofs.Layout.Pieces
import PhaseTree.Proofs.Layout.Rows

set_option autoImplicit false

namespace PhaseTree.Doc

variable {doc first second body : Doc} {depth indent anchor column : Nat}

theorem OnOneLine.piece_eq (h : doc.OnOneLine) (anchor column : Nat) : doc.piece anchor column = doc.flat :=
  doc.render_flat h anchor ⟨.empty, column⟩

theorem OnOneLine.unbroken_flat (h : doc.OnOneLine) (hu : doc.Unbroken) : '\n' ∉ doc.flat := by
  induction doc with
  | empty => exact List.not_mem_nil
  | text s => exact hu
  | newline indent => exact h.elim
  | append first second ih ih' => exact fun hm => (List.mem_append.1 hm).elim (ih h.1 hu.1) (ih' h.2 hu.2)
  | align body ih => exact ih h hu

/-- Drawn from `column` on, the document begins no line to the left of `depth`, and does not end there. -/
structure RightOf (depth : Nat) (doc : Doc) (anchor column : Nat) : Prop where
  indented : Indented depth (doc.piece anchor column)
  stop : depth ≤ doc.stop anchor column

theorem rightOf (h : doc.Unbroken) (ha : depth ≤ anchor) (hc : depth ≤ column) :
    doc.RightOf depth anchor column := by
  -- an aligned part takes its anchor from the column, so both bounds have to be kept together
  induction doc generalizing anchor column with
  | empty => exact ⟨trivial, hc⟩
  | text s =>
    refine ⟨?_, Nat.le_add_right_of_le hc⟩
    rw [piece_text]
    exact Indented.of_unbroken depth h
  | newline indent =>
    have hi : depth ≤ anchor + indent := Nat.le_add_right_of_le ha
    refine ⟨?_, hi⟩
    rw [piece_newline]
    exact Indented.lineStart hi
  | append first second ih ih' =>
    have hf := ih h.1 ha hc
    have hs := ih' h.2 ha hf.stop
    refine ⟨?_, ?_⟩
    · change Indented depth ((first ++ second).piece anchor column)
      rw [piece_append_stop]
      exact hf.indented.append hs.indented
    · change depth ≤ (first ++ second).stop anchor column
      rw [stop_append]
      exact hs.stop
  | align body ih =>
    obtain ⟨indented, hs⟩ := ih h hc hc
    exact ⟨indented, hs⟩

theorem lastLine_le_stop (h : doc.Unbroken) (anchor column : Nat) :
    (lastLine (doc.piece anchor column)).length ≤ doc.stop anchor column := by
  let canvas : Canvas := ⟨⟨String.ofList (List.replicate column ' ')⟩, column⟩
  have spaces : canvas.text.toList = List.replicate column ' ' := String.toList_ofList
  have started : canvas.InStep := by
    have line := lastLine_append (by simp : '\n' ∉ List.replicate column ' ') []
    change column = (lastLine canvas.text.toList).length
    rw [spaces, ← List.nil_append (List.replicate column ' '), line]
    simp [lastLine, firstLine]
  have ended : (doc.render anchor canvas).column =
      (lastLine (doc.render anchor canvas).text.toList).length := doc.render_inStep h anchor started
  rw [column_render, text_render] at ended
  change doc.stop anchor column = _ at ended
  rw [ended]
  exact (lastLine_suffix _ _).length_le

/-- Documents that can stand anywhere, and break lines by layout only. -/
structure Movable (doc : Doc) : Prop where
  anchored : doc.Anchored
  unbroken : doc.Unbroken

namespace Movable

theorem text {s : String} (h : PhaseTree.Unbroken s) : (Doc.text s).Movable := ⟨trivial, h⟩

theorem append (h : first.Movable) (h' : second.Movable) : (first ++ second).Movable :=
  ⟨⟨h.anchored, h'.anchored⟩, h.unbroken, h'.unbroken⟩

theorem piece_eq (h : doc.Movable) (anchor column : Nat) :
    doc.piece anchor column = doc.piece column column :=
  congrArg (fun canvas => canvas.text.toList) (h.anchored.render_eq anchor column ⟨.empty, column⟩)

theorem rightOf (h : doc.Movable) (hc : depth ≤ column) (anchor : Nat) :
    doc.RightOf depth anchor column := by
  have same := h.anchored.render_eq anchor column ⟨.empty, column⟩
  obtain ⟨indented, hs⟩ := Doc.rightOf h.unbroken hc hc
  refine ⟨h.piece_eq anchor column ▸ indented, ?_⟩
  rw [Doc.stop, same]
  exact hs

theorem behind {s : String} (hs : PhaseTree.Unbroken s) (hne : s.toList ≠ []) (h : doc.Movable)
    (hc : depth ≤ column) : Indented (depth + 1) ((Doc.text s ++ doc).piece anchor column) := by
  have hlength : 0 < s.length := by
    rw [← String.length_toList]
    exact List.length_pos_of_ne_nil hne
  have further : depth + 1 ≤ (Doc.text s).stop anchor column := by
    change depth + 1 ≤ column + s.length
    omega
  rw [piece_append_stop, piece_text]
  exact (Indented.of_unbroken _ hs).append (h.rightOf further anchor).indented

theorem item {s : String} {heading : List Char} (hi : Inked s.toList) (hs : PhaseTree.Unbroken s)
    (h : doc.Movable) (hh : heading <+: firstLine (doc.piece anchor (column + s.length))) :
    Item column (s.toList ++ heading) ((Doc.text s ++ doc).piece anchor column) := by
  have hne : s.toList ≠ [] := by
    obtain ⟨c, rest, e, -, -⟩ := hi
    simp [e]
  refine ⟨?_, h.behind hs hne (Nat.le_refl column), ?_⟩
  · rw [piece_append_stop, piece_text]
    exact hi.append _
  · rw [piece_append_stop, piece_text, firstLine_append hs]
    exact (List.prefix_append_right_inj _).2 hh

theorem join {s : String} (hs : PhaseTree.Unbroken s) (hne : s.toList ≠ []) (h : doc.Movable)
    (hf : first.Movable) (hl : first.OnOneLine) (hc : depth ≤ column) :
    Indented (depth + 1) ((first ++ (Doc.text s ++ doc)).piece anchor column) := by
  have line : '\n' ∉ first.piece anchor column := by
    rw [hl.piece_eq]
    exact hl.unbroken_flat hf.unbroken
  rw [piece_append_stop]
  exact (Indented.of_unbroken _ line).append (h.behind hs hne (hf.rightOf hc anchor).stop)

end Movable

/-- A part that begins on a line of its own, with the outline that its lines have. -/
def Section (anchor indent : Nat) (headings : List (List Char)) (doc : Doc) : Prop :=
  ∀ column, ∃ cs, doc.piece anchor column = '\n' :: cs ∧ Outline indent headings (laterRows ('\n' :: cs))

theorem piece_opened (opening : String) (body : Doc) (anchor column : Nat) :
    (align (text opening ++ body)).piece anchor column =
      opening.toList ++ body.piece column (column + opening.length) := by
  change (text opening ++ body).piece column column = _
  rw [piece_append_stop, piece_text]
  rfl

theorem piece_line (offset : Nat) (body : Doc) (anchor column : Nat) :
    (newline offset ++ body).piece anchor column = '\n' ::
      (List.replicate (anchor + offset) ' ' ++ body.piece anchor (anchor + offset)) := by
  rw [piece_append_stop, piece_newline]
  rfl

theorem section_line {offset : Nat} {heading : List Char}
    (h : Item (anchor + offset) heading (body.piece anchor (anchor + offset))) :
    (newline offset ++ body).Section anchor (anchor + offset) [heading] :=
  fun column => ⟨_, piece_line offset body anchor column, Outline.line h⟩

variable {headings headings' : List (List Char)}

theorem Section.outline (h : doc.Section anchor indent headings') {cs : List Char}
    (hcs : Outline indent headings (laterRows cs)) (column : Nat) :
    Outline indent (headings ++ headings') (laterRows (cs ++ doc.piece anchor column)) := by
  obtain ⟨cs', hp, ho⟩ := h column
  rw [hp, laterRows_append_break]
  exact hcs.append ho

theorem section_lines {name mark type : Doc} {offset : Nat} {heading heading' : List Char}
    (h : Item (anchor + offset) heading ((name ++ (mark ++ type)).piece (anchor + offset) (anchor + offset)))
    (h' : Item (anchor + offset) heading' (body.piece (anchor + offset) (anchor + offset))) :
    (newline offset ++ align (name ++ (mark ++ (type ++ (newline 0 ++ body))))).Section anchor
      (anchor + offset) [heading, heading'] := by
  intro column
  refine ⟨_, piece_line offset _ anchor column, ?_⟩
  generalize anchor + offset = depth at h h' ⊢
  -- inside, the anchor is the column of the first line, which the second one goes back to
  have below : (newline 0 ++ body).Section depth depth [heading'] := section_line h'
  have lines : (align (name ++ (mark ++ (type ++ (newline 0 ++ body))))).piece anchor depth =
      (name ++ (mark ++ type)).piece depth depth ++
        (newline 0 ++ body).piece depth ((name ++ (mark ++ type)).stop depth depth) :=
    piece_append_stop (name ++ (mark ++ type)) (newline 0 ++ body) depth depth
  rw [lines, ← List.append_assoc, ← List.cons_append]
  exact below.outline (Outline.line h) _

theorem outline_concat {parts : List (List (List Char))} {docs : List Doc}
    (h : List.Forall₂ (Section anchor indent) parts docs) {cs : List Char}
    (hcs : Outline indent headings (laterRows cs)) (column : Nat) :
    Outline indent (headings ++ parts.flatten) (laterRows (cs ++ (concat docs).piece anchor column)) := by
  induction h generalizing cs headings column with
  | nil => simpa [concat, piece, render, Canvas.text, Sink.empty] using hcs
  | @cons part doc parts docs hd _ ih =>
    have rest := ih (hd.outline hcs column) (doc.stop anchor column)
    have hp : (concat (doc :: docs)).piece anchor column =
        doc.piece anchor column ++ (concat docs).piece anchor (doc.stop anchor column) :=
      piece_append_stop doc (concat docs) anchor column
    rwa [List.append_assoc, List.append_assoc, ← hp, ← List.flatten_cons] at rest

end PhaseTree.Doc
