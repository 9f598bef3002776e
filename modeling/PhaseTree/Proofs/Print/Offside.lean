import PhaseTree.Proofs.Layout.Sections
import PhaseTree.Proofs.Print.Unbroken
import PhaseTree.Proofs.Print.Unsigned

set_option autoImplicit false

namespace PhaseTree

def Written (name : String) : Prop := name ≠ "" ∧ Blankless name.toList

instance (name : String) : Decidable (Written name) := inferInstanceAs (Decidable (_ ∧ _))

theorem Blankless.inked {cs : List Char} (h : Blankless cs) (hne : cs ≠ []) : Inked cs := by
  obtain ⟨c, rest, rfl⟩ := List.exists_cons_of_ne_nil hne
  have hs : c ≠ ' ' := fun e => h.1 (e ▸ List.mem_cons_self)
  have hn : c ≠ '\n' := fun e => h.2 (e ▸ List.mem_cons_self)
  exact ⟨c, rest, rfl, hs, hn⟩

theorem Written.unbroken {name : String} (h : Written name) : Unbroken name := h.2.2

theorem Written.inked {name : String} (h : Written name) : Inked name.toList :=
  h.2.inked fun e => h.1 (String.toList_eq_nil_iff.1 e)

theorem blankless_intercalate {segments : List String} (h : ∀ segment ∈ segments, Blankless segment.toList) :
    Blankless (".".intercalate segments).toList := by
  induction segments with
  | nil => decide
  | cons segment segments ih =>
    rw [List.forall_mem_cons] at h
    cases segments with
    | nil =>
      rw [String.intercalate_singleton]
      exact h.1
    | cons next segments =>
      rw [String.intercalate_cons_cons, String.toList_append, String.toList_append]
      exact (h.1.append (by decide)).append (ih h.2)

theorem QualifiedName.written_display {name : QualifiedName}
    (hs : ∀ path, name.origin = .exported path → ∀ segment ∈ path.segments, Blankless segment.toList)
    (hn : Written name.name) : Written (Named.display name) := by
  rcases name with ⟨⟨⟩ | ⟨⟨segments⟩⟩ | ⟨⟩, name⟩
  · exact hn
  · have qualified : Blankless (".".intercalate segments ++ "." ++ name).toList := by
      rw [String.toList_append, String.toList_append]
      exact ((blankless_intercalate (hs _ rfl)).append (by decide)).append hn.2
    exact ⟨fun e => hn.1 (String.append_eq_empty_iff.1 e).2, qualified⟩
  · exact hn

section

variable {doc : Doc} {docs : List Doc}

theorem Doc.inked_parens (body : Doc) : Inked body.parens.flat := ⟨'(', _, rfl, by decide, by decide⟩

theorem Doc.inked_separated (separator : String) (h : Inked doc.flat) :
    Inked (separated separator (doc :: docs)).flat := by
  cases docs with
  | nil => exact h
  | cons next docs => exact h.append _

theorem Placement.inked_wrap (placement : Placement) (h : Inked doc.flat) :
    Inked (placement.wrap doc).flat := by
  cases placement with
  | operand => exact doc.inked_parens
  | whole | continuing => exact h

theorem Placement.inked_wrapIf (compound : Bool) (placement : Placement) (h : Inked doc.flat) :
    Inked (placement.wrapIf compound doc).flat := by
  cases compound with
  | true => exact placement.inked_wrap h
  | false => exact h

end

theorem inked_bareDoc {name : String} (h : Written name) : Inked (bareDoc name).flat := by
  unfold bareDoc
  cases Reserved.isOperator name with
  | true => exact Doc.inked_parens _
  | false => exact h.inked

theorem inked_numeric {s : String} (h : ∀ c ∈ s.toList, Numeric c) (hw : (Doc.text s).Worded) :
    Inked s.toList := by
  have hne := (hw 0 0).1
  rw [Doc.piece_text] at hne
  exact (bare_numeric h).1.inked hne

namespace Literal

theorem inked_spelling (value : Literal) : Inked value.spelling.toList := by
  cases value with
  | int n => exact inked_numeric (numeric_intRepr n) (intRepr_worded n)
  | float x =>
    change Inked (floatText x).toList
    unfold floatText
    split_ifs
    · exact ⟨'0', _, rfl, by decide, by decide⟩
    · exact ⟨'-', _, rfl, by decide, by decide⟩
    · exact ⟨'1', _, rfl, by decide, by decide⟩
    · exact inked_numeric (numeric_write _ x) (write_worded _ x)
  | char c => exact ⟨'\'', _, String.toList_ofList, by decide, by decide⟩
  | text s => exact ⟨'"', _, String.toList_ofList, by decide, by decide⟩
  | bool b => cases b <;> exact ⟨_, _, rfl, by decide, by decide⟩

end Literal

variable {A V : Type} [Named V]

mutual
theorem Pattern.inked_doc (placement : Placement) (p : Pattern V) (h : ∀ label ∈ p.labels, Written label) :
    Inked (p.doc placement).flat := by
  cases p with
  | data name args =>
    rw [Pattern.labels, List.forall_mem_cons] at h
    rw [Pattern.doc]
    split
    case h_1 sugar =>
      obtain ⟨head, tail, pair⟩ := pair_of_cons sugar
      have parts : args ≠ [] := by simp [pair]
      exact placement.inked_wrap (Pattern.inked_consDocs args parts h.2)
    · exact ⟨'[', _, rfl, by decide, by decide⟩
    · exact Doc.inked_parens _
    · exact Placement.inked_wrapIf _ placement (h.1.inked.append _)
  | record fields => exact ⟨'\x7b', _, rfl, by decide, by decide⟩
  | named name inner =>
    rw [Pattern.labels, List.forall_mem_cons] at h
    have hi := Pattern.inked_doc .operand inner h.2
    exact placement.inked_wrap (hi.append _)
  | var name => exact inked_bareDoc (h name List.mem_cons_self)
  | any => exact ⟨'_', _, rfl, by decide, by decide⟩
  | lit value => exact Placement.inked_wrapIf _ placement value.inked_spelling
termination_by structural p
theorem Pattern.inked_consDocs (ps : List (Pattern V)) (hne : ps ≠ [])
    (h : ∀ label ∈ Pattern.labelsAll ps, Written label) :
    Inked (Doc.separated " :: " (Pattern.consDocs ps)).flat := by
  cases ps with
  | nil => exact absurd rfl hne
  | cons p ps =>
    rw [Pattern.labelsAll, List.forall_mem_append] at h
    exact Doc.inked_separated " :: " (Pattern.inked_doc _ p h.1)
termination_by structural ps
end

theorem Pattern.movable {p : Pattern V} (h : ∀ label ∈ p.labels, Written label) : (p.doc .whole).Movable :=
  ⟨(p.doc_onOneLine .whole).anchored, p.doc_unbroken .whole fun label hm => (h label hm).unbroken⟩

theorem TypeExpr.movable {t : TypeExpr V} (h : ∀ label ∈ t.labels, Written label) :
    (t.doc .whole).Movable :=
  ⟨(t.doc_onOneLine .whole).anchored, t.doc_unbroken .whole fun label hm => (h label hm).unbroken⟩

theorem Expr.movable (config : Config) {e : Expr A Empty V (TypeExpr V)}
    (h : ∀ label ∈ e.labels, Written label) : (e.doc config .whole).Movable :=
  ⟨e.doc_anchored config .whole, e.doc_unbroken config .whole fun label hm => (h label hm).unbroken⟩

def Pattern.heading (config : Config) (p : Pattern V) (mark : String) : List Char :=
  (format config p).toList ++ mark.toList

theorem Pattern.item (config : Config) {p : Pattern V} (h : ∀ label ∈ p.labels, Written label)
    (mark : String) (hu : Unbroken mark) (hne : mark.toList ≠ []) {rest : Doc} (hr : rest.Movable)
    (anchor column : Nat) : Item column (p.heading config mark)
      ((p.doc .whole ++ (.text mark ++ rest)).piece anchor column) where
  inked := by
    rw [Doc.piece_append_stop, (p.doc_onOneLine .whole).piece_eq]
    exact (p.inked_doc .whole h).append _
  deeper := hr.join hu hne (p.movable h) (p.doc_onOneLine .whole) (Nat.le_refl column)
  headed := by
    have hp : (format config p).toList = (p.doc .whole).flat := Doc.toText_flat _ (p.doc_onOneLine .whole)
    have line : '\n' ∉ p.heading config mark := by
      rw [heading, hp, List.mem_append, not_or]
      exact ⟨(p.doc_onOneLine .whole).unbroken_flat (p.movable h).unbroken, hu⟩
    rw [Doc.piece_append_stop, Doc.piece_append_stop, Doc.piece_text, (p.doc_onOneLine .whole).piece_eq,
      ← hp, ← List.append_assoc]
    change p.heading config mark <+: firstLine (p.heading config mark ++ _)
    rw [firstLine_append line]
    exact List.prefix_append _ _

/-- The text with which the branch of a conditional begins a line: its condition may take further ones. -/
def guardHeading (config : Config) (column : Nat) (condition : Expr A Empty V (TypeExpr V)) : List Char :=
  "| ".toList ++ firstLine (draw config .whole condition ⟨.empty, column + 2⟩).text.toList

def Def.headings (config : Config) : Def A Empty V (TypeExpr V) → List (List Char)
  | .bind pattern _ none => [pattern.heading config " = "]
  | .bind pattern _ (some _) => [pattern.heading config " : ", pattern.heading config " = "]
  | .foreign definition => definition.elim

theorem guard_section (config : Config) {condition result : Expr A Empty V (TypeExpr V)}
    (hc : ∀ label ∈ condition.labels, Written label) (hr : ∀ label ∈ result.labels, Written label)
    (anchor offset : Nat) :
    (Doc.newline offset ++ (.text "| " ++ (condition.doc config .whole ++
      (.text " -> " ++ result.doc config .whole)))).Section anchor (anchor + offset)
      [guardHeading config (anchor + offset) condition] := by
  have movable : (condition.doc config .whole ++ (.text " -> " ++ result.doc config .whole)).Movable :=
    (Expr.movable config hc).append ((Doc.Movable.text (by decide)).append (Expr.movable config hr))
  apply Doc.section_line
  refine movable.item ⟨'|', _, rfl, by decide, by decide⟩ (by decide) ?_
  rw [Doc.piece_append_stop, (Expr.movable config hc).piece_eq]
  exact firstLine_prefix _ _

theorem guards_sections (config : Config)
    {branches : List (Expr A Empty V (TypeExpr V) × Expr A Empty V (TypeExpr V))}
    (h : ∀ label ∈ guardLabels branches, Written label) (anchor : Nat) :
    List.Forall₂ (Doc.Section anchor (anchor + config.ifIndent))
      (branches.map fun branch => [guardHeading config (anchor + config.ifIndent) branch.1])
      (guardDocs config branches) := by
  induction branches with
  | nil => exact .nil
  | cons branch branches ih =>
    simp only [guardLabels, List.forall_mem_append] at h
    exact .cons (guard_section config h.1 h.2.1 anchor config.ifIndent) (ih h.2.2)

theorem branches_sections (config : Config) {branches : List (Pattern V × Expr A Empty V (TypeExpr V))}
    (h : ∀ label ∈ branchLabels branches, Written label) (anchor : Nat) :
    List.Forall₂ (Doc.Section anchor (anchor + config.caseIndent))
      (branches.map fun branch => [branch.1.heading config " -> "]) (branchDocs config branches) := by
  induction branches with
  | nil => exact .nil
  | cons branch branches ih =>
    simp only [branchLabels, List.forall_mem_append] at h
    have item := Pattern.item config h.1 " -> " (by decide) (by decide) (Expr.movable config h.2.1) anchor
    exact .cons (Doc.section_line (item _)) (ih h.2.2)

theorem Def.section_doc (config : Config) {d : Def A Empty V (TypeExpr V)}
    (h : ∀ label ∈ d.labels, Written label) (anchor offset : Nat) :
    (Doc.newline offset ++ d.doc config).Section anchor (anchor + offset) (d.headings config) := by
  rcases d with ⟨pattern, body, type⟩ | definition
  · simp only [Def.labels, List.forall_mem_append] at h
    have equation := Pattern.item config h.1 " = " (by decide) (by decide) (Expr.movable config h.2.1)
    cases type with
    | none => exact Doc.section_line (equation anchor _)
    | some type =>
      have signature := Pattern.item config h.1 " : " (by decide) (by decide) (TypeExpr.movable h.2.2)
      exact Doc.section_lines (signature _ _) (equation _ _)
  · exact definition.elim

theorem defs_sections (config : Config) {defs : List (Def A Empty V (TypeExpr V))}
    (h : ∀ label ∈ defLabels defs, Written label) (anchor : Nat) :
    List.Forall₂ (Doc.Section anchor (anchor + config.letIndent)) (defs.map (Def.headings config))
      (defDocs config defs) := by
  induction defs with
  | nil => exact .nil
  | cons d defs ih =>
    rw [defLabels, List.forall_mem_append] at h
    exact .cons (d.section_doc config h.1 anchor config.letIndent) (ih h.2)

/-- What the lines of a form of several lines look like, apart from its first one, if it begins at
`column`. -/
def Expr.Offside (config : Config) (column : Nat) (rows : List Row) : Expr A Empty V (TypeExpr V) → Prop
  | .guards _ branches => Outline (column + config.ifIndent)
      (branches.map fun branch => guardHeading config (column + config.ifIndent) branch.1) rows
  | .case _ _ branches => Outline (column + config.caseIndent)
      (branches.map fun branch => branch.1.heading config " -> ") rows
  | .letIn _ defs _ => Outline column ["in ".toList] rows ∧
      ∃ before last after, rows = before ++ last :: after ∧ last.indent = column ∧
        Outline (column + config.letIndent) (defs.flatMap (Def.headings config)) before
  | _ => True

section

variable {config : Config} {a : A}

theorem Expr.offside_guards {branches : List (Expr A Empty V (TypeExpr V) × Expr A Empty V (TypeExpr V))}
    (h : ∀ label ∈ guardLabels branches, Written label) (column : Nat) :
    (guards a branches).Offside config column
      (laterRows (((guards a branches).doc config .whole).piece column column)) := by
  have keyword : Outline (column + config.ifIndent) [] (laterRows "if".toList) :=
    .of_deeper (Indented.of_unbroken _ (by decide)).rows
  rw [Expr.doc, Placement.wrap_whole, Doc.piece_opened, Offside, List.map_eq_flatMap]
  exact Doc.outline_concat (guards_sections config h column) keyword _

/-- The subject begins five columns further to the right, behind the keyword. -/
theorem Expr.offside_case {subject : Expr A Empty V (TypeExpr V)}
    {branches : List (Pattern V × Expr A Empty V (TypeExpr V))} (hi : config.caseIndent ≤ 4)
    (hs : ∀ label ∈ subject.labels, Written label) (h : ∀ label ∈ branchLabels branches, Written label)
    (column : Nat) : (case a subject branches).Offside config column
      (laterRows (((case a subject branches).doc config .whole).piece column column)) := by
  have further : column + config.caseIndent + 1 ≤ column + 5 := by omega
  have shown : Indented (column + config.caseIndent + 1)
      ((subject.doc config .whole).piece column (column + "case ".length)) :=
    ((Expr.movable config hs).rightOf further column).indented
  have head : Indented (column + config.caseIndent + 1) ("case ".toList ++
      (subject.doc config .whole).piece column (column + "case ".length) ++ " of".toList) :=
    ((Indented.of_unbroken _ (by decide)).append shown).append (.of_unbroken _ (by decide))
  rw [Expr.doc, Placement.wrap_whole, Doc.piece_opened, Doc.piece_append_stop, Doc.piece_append_stop,
    Doc.piece_text, ← List.append_assoc, ← List.append_assoc, Offside, List.map_eq_flatMap]
  exact Doc.outline_concat (branches_sections config h column) (.of_deeper head.rows) _

theorem Expr.offside_letIn {defs : List (Def A Empty V (TypeExpr V))} {body : Expr A Empty V (TypeExpr V)}
    (hi : 1 ≤ config.letIndent) (h : ∀ label ∈ defLabels defs, Written label)
    (hb : ∀ label ∈ body.labels, Written label) (column : Nat) :
    (letIn a defs body).Offside config column
      (laterRows (((letIn a defs body).doc config .whole).piece column column)) := by
  have keyword : Outline (column + config.letIndent) [] (laterRows "let".toList) :=
    .of_deeper (Indented.of_unbroken _ (by decide)).rows
  have lines := Doc.outline_concat (defs_sections config h column) keyword (column + "let".length)
  have last : Item column ("in ".toList ++ [])
      ((.text "in " ++ body.doc config .whole : Doc).piece column (column + 0)) :=
    (Expr.movable config hb).item ⟨'i', _, rfl, by decide, by decide⟩ (by decide) List.nil_prefix
  rw [List.append_nil] at last
  rw [Expr.doc, Placement.wrap_whole, Doc.piece_opened, Doc.piece_append_stop, Doc.piece_line,
    ← List.append_assoc, laterRows_append_break]
  constructor
  -- all definitions are strictly deeper, so the line of the body is alone at its depth
  · refine (Outline.of_deeper fun row hm => ?_).append (Outline.line last)
    have deep := lines.bounded row hm
    omega
  · rw [laterRows_break, last.inked.read]
    exact ⟨_, _, _, rfl, rfl, lines⟩

end

/-- Printed from any column on, a value begins all its other lines there or further to the right, and those
of a form of several lines are told apart by their indentation. -/
theorem Expr.printed_offside {config : Config} (hl : 1 ≤ config.letIndent) (hc : config.caseIndent ≤ 4)
    (e : Expr A Empty V (TypeExpr V)) (h : ∀ label ∈ e.labels, Written label) (canvas : Canvas) :
    ∃ added, (draw config .whole e canvas).text = canvas.text ++ added ∧
      (∀ row ∈ laterRows added.toList, canvas.column ≤ row.indent) ∧
      e.Offside config canvas.column (laterRows added.toList) := by
  refine ⟨_, Doc.text_draw (e.doc config .whole) canvas, ?_⟩
  rw [String.toList_ofList]
  refine ⟨((Expr.movable config h).rightOf (Nat.le_refl _) _).indented.rows, ?_⟩
  cases e with
  | guards a branches => exact offside_guards h canvas.column
  | letIn a defs body =>
    rw [labels, List.forall_mem_append] at h
    exact offside_letIn hl h.1 h.2 canvas.column
  | case a subject branches =>
    rw [labels, List.forall_mem_append] at h
    exact offside_case hc h.1 h.2 canvas.column
  | _ => trivial

theorem Expr.printed_offside_nested :
    let a : Span := .synthetic
    let choice : ParsedExpr :=
      .guards a [(.var a ⟨"p"⟩, .lit a (.text "a\n b")), (.var a ⟨"q"⟩, .var a ⟨"x"⟩)]
    let branches : ParsedExpr := .case a choice [(.lit (.int (-1)), choice), (.any, .var a ⟨"y"⟩)]
    let e : ParsedExpr := .letIn a
      [.bind (.var "f") (.lambda a (.var "x") branches) (some (.con ⟨"T"⟩)), .bind (.var "y") choice none]
      (.app a (.var a ⟨"f"⟩) branches)
    1 ≤ Config.standard.letIndent ∧ Config.standard.caseIndent ≤ 4 ∧ (∀ label ∈ e.labels, Written label) ∧
      ∀ canvas, ∃ added, (draw .standard .whole e canvas).text = canvas.text ++ added ∧
        (∀ row ∈ laterRows added.toList, canvas.column ≤ row.indent) ∧
        e.Offside .standard canvas.column (laterRows added.toList) := by
  intro a choice branches e
  have named : ∀ label ∈ e.labels, Written label := by decide
  exact ⟨by decide, by decide, named, Expr.printed_offside (by decide) (by decide) e named⟩

end PhaseTree
