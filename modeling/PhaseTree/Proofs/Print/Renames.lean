import PhaseTree.Proofs.Print.Shortening

set_option autoImplicit false

/-!
An insertion into a removal prints as a rename. Other insertions can print the same text, since the record
stands without parentheses in front of the bar: those whose record ends with a subtraction of what reads as
the removed field, and no others.
-/

namespace PhaseTree

variable {A V : Type} [Named V]

namespace Doc

variable {record other value : Doc} {P Q : List Char → Prop}

def insertion (record : Doc) (field : String) (value : Doc) : Doc :=
  record ++ (.text " | " ++ (.text field ++ (.text " = " ++ value)))

theorem piece_of_braces {body body' : Doc} (h : body.braces.toText = body'.braces.toText) :
    body.piece 0 1 = body'.piece 0 1 := by
  have opened (body : Doc) : body.braces.piece 0 0 = '\x7b' :: (body.piece 0 1 ++ ['\x7d']) := by
    rw [braces, between, piece_append_stop, piece_append_stop, piece_text, piece_text]
    rfl
  have same : body.braces.piece 0 0 = body'.braces.piece 0 0 := congrArg String.toList h
  rw [opened, opened] at same
  exact List.append_cancel_right (List.cons.inj same).2

/-- Behind the minus of a rename stand the removed field and a bar, and the lines of the new value begin
further to the right. -/
theorem rename_minus {old new : String} (hb : other.Balanced) (hu : other.Unbroken)
    (ho : PhaseTree.Unbroken old) (hn : PhaseTree.Unbroken new) (hv : value.Movable) (anchor column : Nat) :
    ∃ before after,
      Minus before (' ' :: (old.toList ++ ' ' :: '|' :: after))
        ((insertion (other ++ (text " - " ++ text old)) new value).piece anchor column) ∧
      ¬Recedes (lastLine before).length (' ' :: (old.toList ++ ' ' :: '|' :: after)) := by
  obtain ⟨outer, hl, -⟩ := hb anchor column
  have reached := lastLine_le_stop hu anchor column
  generalize hx : other.piece anchor column = x at hl reached
  generalize hs : other.stop anchor column = start at reached
  let start' := start + 3 + old.length + 3 + new.length + 3
  let value' := value.piece anchor start'
  have whole : (insertion (other ++ (text " - " ++ text old)) new value).piece anchor column =
      x ++ ' ' :: '-' :: ' ' :: (old.toList ++ ' ' :: '|' :: ' ' :: (new.toList ++ " = ".toList ++ value')) := by
    simp only [insertion, piece_append_stop, stop_append, piece_text, hx, hs, List.append_assoc]
    rfl
  refine ⟨x ++ [' '], ' ' :: (new.toList ++ " = ".toList ++ value'), ⟨?_, .inr ⟨x, rfl, hl.outside⟩, ?_⟩, ?_⟩
  · rw [whole]
    simp
  · simp
  · intro recedes
    refine recedes.not_indented ?_
    have line : '\n' ∉ ' ' :: (old.toList ++ " | ".toList ++ (new.toList ++ " = ".toList)) := by
      have hold : '\n' ∉ old.toList := ho
      have hnew : '\n' ∉ new.toList := hn
      simp [hold, hnew]
    have right : (lastLine (x ++ [' '])).length + 1 ≤ start' := by
      rw [lastLine_append (by decide), List.length_append, List.length_singleton]
      omega
    have value := (hv.rightOf right anchor).indented
    have both := (Indented.of_unbroken _ line).append value
    simpa using both

end Doc

/-- The expression ends with a subtraction whose right operand is always printed as `text`. -/
def Expr.EndsSubtracting (config : Config) (text : String) (e : Expr A Empty V (TypeExpr V)) : Prop :=
  ∃ a op left right, (binop a op left right).IsTail e ∧ Named.bare op = "-" ∧
    left.isNegation op = false ∧
    ∀ canvas, (draw config .operand right canvas).text = canvas.text ++ text

/-- The expression looks like an insertion into the removal of a field. -/
def Expr.LooksLikeRename (config : Config) (old : String) (e : Expr A Empty V (TypeExpr V)) : Prop :=
  ∃ (config' : Config) (a b : A) (other newValue : Expr A Empty V (TypeExpr V)) (new : String),
    (∀ label ∈ (insert a (remove b other old) new newValue).labels, Legible label) ∧
      format config e = format config' (insert a (remove b other old) new newValue)

theorem Expr.SubtractsLast.endsSubtracting {config : Config} {e : Expr A Empty V (TypeExpr V)}
    {text : String} (hu : Unbroken text) (h : e.SubtractsLast config text.toList) :
    e.EndsSubtracting config text := by
  obtain ⟨a, op, left, right, anchor, column, htail, hop, hn, hp⟩ := h
  have unbroken : '\n' ∉ (right.doc config .operand).piece anchor column := by
    rw [← hp]
    exact hu
  have line := Doc.onOneLine_of_piece unbroken
  refine ⟨a, op, left, right, htail, hop, hn, fun canvas => String.toList_injective ?_⟩
  rw [String.toList_append, hp, line.piece_eq]
  exact Doc.render_flat _ line canvas.column canvas

theorem Expr.format_insert (config : Config) {a : A} {record value : Expr A Empty V (TypeExpr V)}
    {field : String} (h : record.isRemove = false) : format config (insert a record field value) =
      (Doc.insertion (record.doc config .whole) field (value.doc config .whole)).braces.toText := by
  simp [format, Printable.doc, Expr.doc, h, Doc.insertion]

theorem Expr.format_rename (config : Config) (a b : A) (other newValue : Expr A Empty V (TypeExpr V))
    (old new : String) : format config (insert a (remove b other old) new newValue) =
      (Doc.insertion (other.doc config .whole ++ (.text " - " ++ .text old)) new
        (newValue.doc config .whole)).braces.toText := by
  simp [format, Printable.doc, Expr.doc, isRemove, Doc.insertion]

theorem Expr.LooksLikeRename.endsSubtracting {config : Config} {a : A}
    {record value : Expr A Empty V (TypeExpr V)} {field old : String} (hrecord : record.isRemove = false)
    (hplain : ∀ label ∈ (insert a record field value).labels, Legible label)
    (hwords : ∀ word ∈ record.words .whole ++ value.words .whole, word ≠ "-") (hfield : field ≠ "-")
    (h : (insert a record field value).LooksLikeRename config old) : record.EndsSubtracting config old := by
  obtain ⟨config', a', b, other, newValue, new, hrename, same⟩ := h
  simp only [Expr.labels, List.forall_mem_cons, List.forall_mem_append] at hplain hrename
  rw [List.forall_mem_append] at hwords
  obtain ⟨hf, hlr, hlv⟩ := hplain
  obtain ⟨hnew, ⟨hold, hother⟩, hvalue⟩ := hrename
  rw [format_insert config hrecord, format_rename] at same
  have hpiece := Doc.piece_of_braces same
  obtain ⟨before, after, hm, hr⟩ := Doc.rename_minus (Expr.movable_balanced config' hother).2
    (Expr.movable_balanced config' hother).1.unbroken hold.written.unbroken hnew.written.unbroken
    (Expr.movable_balanced config' hvalue).1 0 1
  have hfirst := (record.reading config hlr hwords.1).1
  have bar : (Doc.text " | ").Unsigned := Doc.unsigned_text (by decide) (by decide)
  have equals : (Doc.text " = ").Unsigned := Doc.unsigned_text (by decide) (by decide)
  have hrest := bar.then ((hf.isWord hfield).unsigned.then (equals.then (value.reading config hlv hwords.2).1))
  have hs := hrest 0 ((record.doc config .whole).stop 0 1)
  rw [← hpiece, Doc.insertion, Doc.piece_append_stop, Doc.piece_append_stop (.text " | "), Doc.piece_text] at hm
  rw [Doc.piece_append_stop, Doc.piece_text] at hs
  obtain ⟨outer, hl, hb⟩ := hold.1.level
  exact ((hfirst 0 1).split hs ⟨outer, hl, hb⟩ hm hr).endsSubtracting hold.written.unbroken

theorem Expr.EndsSubtracting.looksLikeRename {config : Config} {a : A}
    {record value : Expr A Empty V (TypeExpr V)} {field old : String} (hrecord : record.isRemove = false)
    (hplain : ∀ label ∈ (insert a record field value).labels, Legible label) (hold : Legible old)
    (h : record.EndsSubtracting config old) : (insert a record field value).LooksLikeRename config old := by
  obtain ⟨b, op, left, right, htail, hop, hn, hr⟩ := h
  have hp : (right.doc config .operand).piece 0 0 = old.toList := by
    have shown := congrArg String.toList (hr .empty)
    exact shown.trans (by simp [Canvas.text, Canvas.empty, Sink.empty])
  have unbroken : '\n' ∉ (right.doc config .operand).piece 0 0 := by
    rw [hp]
    exact hold.written.unbroken
  have line := Doc.onOneLine_of_piece unbroken
  have hemit : ∀ anchor canvas, (right.doc config .operand).render anchor canvas = canvas.emit old := by
    intro anchor canvas
    rw [line.render_eq, ← line.piece_eq 0 0, hp, String.ofList_toList]
  obtain ⟨left', hl, hk, hlabels⟩ := left.exists_whole_eq_operand config b
  simp only [labels, List.forall_mem_cons, List.forall_mem_append] at hplain
  obtain ⟨hf, hlr, hlv⟩ := hplain
  have tuple : Legible (Reserved.tupleName 1) := Bare.legible (by decide) (by decide)
  obtain ⟨other, ho, hother⟩ := htail.shorten (prolongs_subtraction hop hn hl hk hemit) hlr fun hi label hm => by
    simp only [labels, List.forall_mem_cons, List.forall_mem_append] at hi
    obtain rfl | hm := hlabels label hm
    · exact tuple
    · exact hi.2.1 label hm
  refine ⟨config, a, b, other, value, field, ?_, ?_⟩
  · simp only [labels, List.forall_mem_cons, List.forall_mem_append]
    exact ⟨hf, ⟨hold, hother⟩, hlv⟩
  · rw [format_insert config hrecord, format_rename]
    have same : ∀ anchor canvas, (record.doc config .whole).render anchor canvas =
        (other.doc config .whole ++ (Doc.text " - " ++ .text old)).render anchor canvas := by
      intro anchor canvas
      rw [ho.whole, Canvas.emit_append]
      rfl
    have rest := congrArg (fun canvas => ((Doc.text " | " ++ (.text field ++ (.text " = " ++
      value.doc config .whole)) ++ .text "\x7d").render 0 canvas).text) (same 0 (Canvas.empty.emit "\x7b"))
    exact rest

/-- An insertion looks like the removal of the field `old` and an insertion exactly if its record ends with a
subtraction of what is printed as `old`. Outside of brackets, constructors and inserted fields must not be
taken for a minus. -/
theorem Expr.looksLikeRename_iff {config : Config} {a : A} {record value : Expr A Empty V (TypeExpr V)}
    {field old : String} (hrecord : record.isRemove = false)
    (hplain : ∀ label ∈ (insert a record field value).labels, Legible label)
    (hwords : ∀ word ∈ record.words .whole ++ value.words .whole, word ≠ "-") (hfield : field ≠ "-")
    (hold : Legible old) :
    (insert a record field value).LooksLikeRename config old ↔ record.EndsSubtracting config old :=
  ⟨fun h => h.endsSubtracting hrecord hplain hwords hfield, fun h => h.looksLikeRename hrecord hplain hold⟩

theorem Expr.looksLikeRename_iff_annotated :
    let a : Span := .synthetic
    let x : ParsedExpr := .var a ⟨"x"⟩
    let type : TypeExpr RawName := .app (.con ⟨"T"⟩) [.con ⟨"-"⟩, .var "b"]
    let scope (body : ParsedExpr) : ParsedExpr := .letIn a [.bind (.var "g") x (some type)] (.lambda a .any body)
    let record := scope (.binop a ⟨"-"⟩ x (.list a []))
    let plain : ParsedExpr := .insert a record "f" x
    let rename : ParsedExpr := .insert a (.remove a (scope x) "[]") "f" x
    record.isRemove = false ∧ (∀ label ∈ plain.labels, Legible label) ∧
      (∀ word ∈ record.words .whole ++ x.words .whole, word ≠ "-") ∧ Legible "[]" ∧ Legible "y" ∧
      (∀ label ∈ rename.labels, Legible label) ∧ format .standard plain = format .standard rename ∧
      record.EndsSubtracting .standard "[]" ∧ ¬plain.LooksLikeRename .standard "y" := by
  intro a x type scope record plain rename
  have legible : ∀ labels : List String, (∀ label ∈ labels, (label = Reserved.nil ∨ Bare label) ∧ label ≠ "") →
      ∀ label ∈ labels, Legible label :=
    fun labels h label hm => ⟨tidy_single (h label hm).1, (h label hm).2⟩
  have hplain := legible plain.labels (by decide)
  have hrename := legible rename.labels (by decide)
  have hwords : ∀ word ∈ record.words .whole ++ x.words .whole, word ≠ "-" := by decide
  have hnil := legible ["[]"] (by decide) _ List.mem_cons_self
  have hy := legible ["y"] (by decide) _ List.mem_cons_self
  have same : format .standard plain = format .standard rename := by decide
  have ends := (looksLikeRename_iff rfl hplain hwords (by decide) hnil).1
    ⟨.standard, a, a, scope x, x, "f", hrename, same⟩
  refine ⟨rfl, hplain, hwords, hnil, hy, hrename, same, ends, ?_⟩
  rw [looksLikeRename_iff rfl hplain hwords (by decide) hy]
  rintro ⟨_, _, _, _, htail, -, -, hr⟩
  change Expr.IsTail _ (.letIn a [_] (.lambda a .any (.binop a ⟨"-"⟩ x (.list a [])))) at htail
  cases htail with
  | letIn _ _ htail =>
    cases htail with
    | lambda _ _ htail =>
      cases htail
      exact absurd (hr .empty) (by decide)

/-- Insertions that are taken for renames: by a subtraction, and by constructors and a field that are
named like operators. -/
theorem insertion_prints_as_rename :
    let word (name : String) : ParsedExpr := .data .synthetic name []
    let x : ParsedExpr := .var .synthetic ⟨"x"⟩
    let difference : ParsedExpr := .binop .synthetic ⟨"-"⟩ x (.var .synthetic ⟨"y"⟩)
    let application : ParsedExpr := .data .synthetic "x" [word "-", word "y"]
    let sentence : ParsedExpr := .data .synthetic "|" [word "f", word "=", word "z"]
    let insertion (record : ParsedExpr) (field : String) (value : ParsedExpr) : ParsedExpr :=
      .insert .synthetic record field value
    let rename (record : ParsedExpr) (old : String) : ParsedExpr :=
      insertion (.remove .synthetic record old) "f" (word "z")
    format .standard (insertion difference "f" (word "z")) = format .standard (rename x "y") ∧
      format .standard (insertion application "f" (word "z")) = format .standard (rename x "y") ∧
      format .standard (insertion x "-" sentence) =
        format .standard (rename (.data .synthetic "x" [word "|"]) "=") ∧
      format .standard (insertion x "g" (.data .synthetic "x" (["-", "y", "|", "f", "=", "z"].map word))) =
        format .standard (rename (.data .synthetic "x" (["|", "g", "=", "x"].map word)) "y") := by
  decide

end PhaseTree
