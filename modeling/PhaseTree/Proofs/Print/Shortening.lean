import PhaseTree.Proofs.Print.Subtraction

set_option autoImplicit false

namespace PhaseTree

theorem Canvas.emit_append (s s' : String) (canvas : Canvas) :
    canvas.emit (s ++ s') = (canvas.emit s).emit s' := by
  simp [Canvas.emit, Sink.emit, String.append_assoc, Nat.add_assoc]

namespace Doc

variable {long short : Doc} {tail : String}

/-- `long` prints like `short` with `tail` behind it. -/
def Prolongs (long : Doc) (tail : String) (short : Doc) : Prop :=
  ∀ anchor canvas, long.render anchor canvas = (short.render anchor canvas).emit tail

namespace Prolongs

theorem append (h : long.Prolongs tail short) (first : Doc) :
    (first ++ long).Prolongs tail (first ++ short) :=
  fun anchor canvas => h anchor (first.render anchor canvas)

theorem align (h : long.Prolongs tail short) : (Doc.align long).Prolongs tail (Doc.align short) :=
  fun _ canvas => h canvas.column canvas

theorem concat (h : long.Prolongs tail short) (docs : List Doc) :
    (Doc.concat (docs ++ [long])).Prolongs tail (Doc.concat (docs ++ [short])) := by
  induction docs with
  | nil => exact h
  | cons doc docs ih => exact ih.append doc

end Prolongs

theorem onOneLine_of_piece {doc : Doc} {anchor column : Nat} (h : '\n' ∉ doc.piece anchor column) :
    doc.OnOneLine := by
  induction doc generalizing anchor column with
  | empty | text _ => trivial
  | newline indent =>
    rw [piece_newline] at h
    simp at h
  | append first second ih ih' =>
    have hp : '\n' ∉ first.piece anchor column ++ second.piece anchor (first.stop anchor column) :=
      piece_append_stop first second anchor column ▸ h
    rw [List.mem_append, not_or] at hp
    exact ⟨ih hp.1, ih' hp.2⟩
  | align body ih => exact ih h

theorem OnOneLine.render_eq {doc : Doc} (h : doc.OnOneLine) (anchor : Nat) (canvas : Canvas) :
    doc.render anchor canvas = canvas.emit (String.ofList doc.flat) := by
  induction doc generalizing anchor canvas with
  | empty => simp [render, flat, Canvas.emit, Sink.emit]
  | text s => simp [render, flat]
  | newline indent => exact h.elim
  | append first second ih ih' =>
    rw [render, ih h.1, ih' h.2, flat, String.ofList_append, Canvas.emit_append]
  | align body ih => exact ih h canvas.column canvas

end Doc

section

variable {A V : Type} [Named V] {config : Config} {tail : String}

namespace Expr

structure Prolongs (config : Config) (long : Expr A Empty V (TypeExpr V)) (tail : String)
    (short : Expr A Empty V (TypeExpr V)) : Prop where
  whole : (long.doc config .whole).Prolongs tail (short.doc config .whole)
  link : short.isLambda = long.isLambda
  continuing : long.isLambda = true → (long.doc config .continuing).Prolongs tail (short.doc config .continuing)

theorem prolongs_of_whole {long short : Expr A Empty V (TypeExpr V)} (hl : long.isLambda = false)
    (hs : short.isLambda = false) (h : (long.doc config .whole).Prolongs tail (short.doc config .whole)) :
    Prolongs config long tail short :=
  ⟨h, hs.trans hl.symm, fun e => by rw [hl] at e; contradiction⟩

theorem Prolongs.lambda {body body' : Expr A Empty V (TypeExpr V)} (h : Prolongs config body tail body')
    (a : A) (param : Pattern V) :
    Prolongs config (.lambda a param body) tail (.lambda a param body') := by
  have params : ((Expr.lambda a param body).doc config .continuing).Prolongs tail
      ((Expr.lambda a param body').doc config .continuing) := by
    rw [Expr.doc, Expr.doc, h.link]
    cases hl : body.isLambda with
    | true => exact ((h.continuing hl).append _).append _
    | false => exact (h.whole.append _).append _
  refine ⟨?_, rfl, fun _ => params⟩
  rw [doc_lambda_whole, doc_lambda_whole]
  exact params.append _

theorem Prolongs.letIn {body body' : Expr A Empty V (TypeExpr V)} (h : Prolongs config body tail body')
    (a : A) (defs : List (Def A Empty V (TypeExpr V))) :
    Prolongs config (.letIn a defs body) tail (.letIn a defs body') := by
  apply prolongs_of_whole rfl rfl
  rw [Expr.doc, Expr.doc]
  exact ((((h.whole.append _).append _).append _).append _).align

theorem Prolongs.guards {condition result result' : Expr A Empty V (TypeExpr V)}
    (h : Prolongs config result tail result') (a : A)
    (before : List (Expr A Empty V (TypeExpr V) × Expr A Empty V (TypeExpr V))) :
    Prolongs config (.guards a (before ++ [(condition, result)])) tail
      (.guards a (before ++ [(condition, result')])) := by
  apply prolongs_of_whole rfl rfl
  rw [Expr.doc, Expr.doc, guardDocs_eq, guardDocs_eq]
  simp only [List.map_append, List.map_cons, List.map_nil]
  exact (((((h.whole.append _).append _).append _).append _).concat _ |>.append _).align

theorem Prolongs.case {result result' : Expr A Empty V (TypeExpr V)} (h : Prolongs config result tail result')
    (a : A) (subject : Expr A Empty V (TypeExpr V)) (before : List (Pattern V × Expr A Empty V (TypeExpr V)))
    (pattern : Pattern V) :
    Prolongs config (.case a subject (before ++ [(pattern, result)])) tail
      (.case a subject (before ++ [(pattern, result')])) := by
  apply prolongs_of_whole rfl rfl
  rw [Expr.doc, Expr.doc, branchDocs_eq, branchDocs_eq]
  simp only [List.map_append, List.map_cons, List.map_nil]
  have line := ((h.whole.append (.text " -> ")).append (pattern.doc .whole)).append (.newline config.caseIndent)
  exact (((line.concat _).append _).append _ |>.append _).align

end Expr

theorem guardLabels_append (branches branches' : List (Expr A Empty V (TypeExpr V) × Expr A Empty V (TypeExpr V))) :
    guardLabels (branches ++ branches') = guardLabels branches ++ guardLabels branches' := by
  induction branches with
  | nil => rfl
  | cons branch branches ih => simp [guardLabels, ih]

theorem branchLabels_append (branches branches' : List (Pattern V × Expr A Empty V (TypeExpr V))) :
    branchLabels (branches ++ branches') = branchLabels branches ++ branchLabels branches' := by
  induction branches with
  | nil => rfl
  | cons branch branches ih => simp [branchLabels, ih]

/-- What is changed at the end of an expression changes the end of its text. -/
theorem Expr.IsTail.shorten {inner inner' e : Expr A Empty V (TypeExpr V)} (h : inner.IsTail e)
    (hp : Prolongs config inner tail inner') {P : String → Prop} (he : ∀ label ∈ e.labels, P label)
    (hi : (∀ label ∈ inner.labels, P label) → ∀ label ∈ inner'.labels, P label) :
    ∃ e', Prolongs config e tail e' ∧ ∀ label ∈ e'.labels, P label := by
  induction h with
  | self => exact ⟨inner', hp, hi he⟩
  | lambda a param _ ih =>
    rw [labels, List.forall_mem_append] at he
    obtain ⟨body', hb, hl⟩ := ih he.2
    refine ⟨_, hb.lambda a param, ?_⟩
    rw [labels, List.forall_mem_append]
    exact ⟨he.1, hl⟩
  | letIn a defs _ ih =>
    rw [labels, List.forall_mem_append] at he
    obtain ⟨body', hb, hl⟩ := ih he.2
    refine ⟨_, hb.letIn a defs, ?_⟩
    rw [labels, List.forall_mem_append]
    exact ⟨he.1, hl⟩
  | guards a before condition _ ih =>
    simp only [labels, guardLabels_append, guardLabels, List.append_nil, List.forall_mem_append] at he
    obtain ⟨result', hr, hl⟩ := ih he.2.2
    refine ⟨_, hr.guards a before, ?_⟩
    simp only [labels, guardLabels_append, guardLabels, List.append_nil, List.forall_mem_append]
    exact ⟨he.1, he.2.1, hl⟩
  | case a subject before pattern _ ih =>
    simp only [labels, branchLabels_append, branchLabels, List.append_nil, List.forall_mem_append] at he
    obtain ⟨result', hr, hl⟩ := ih he.2.2.2
    refine ⟨_, hr.case a subject before pattern, ?_⟩
    simp only [labels, branchLabels_append, branchLabels, List.append_nil, List.forall_mem_append]
    exact ⟨he.1, he.2.1, he.2.2.1, hl⟩

theorem Expr.doc_tuple_single (a : A) (e : Expr A Empty V (TypeExpr V)) :
    (tuple a [e]).doc config .whole = (e.doc config .whole).parens := by
  rw [tuple, Expr.doc, Sugar.of_tuple]
  rfl

/-- On its own, an expression can be made to look as it does as an operand. -/
theorem Expr.exists_whole_eq_operand (config : Config) (a : A) (e : Expr A Empty V (TypeExpr V)) :
    ∃ e' : Expr A Empty V (TypeExpr V), e'.doc config .whole = e.doc config .operand ∧
      e'.isLambda = false ∧ ∀ label ∈ e'.labels, label = Reserved.tupleName 1 ∨ label ∈ e.labels := by
  rw [doc_operand]
  by_cases hc : e.Compound
  · refine ⟨tuple a [e], ?_, rfl, ?_⟩
    · rw [if_pos hc, doc_tuple_single]
    · simp [tuple, labels, exprLabels]
  · refine ⟨e, by rw [if_neg hc], ?_, fun label hm => .inr hm⟩
    cases e with
    | lambda _ _ _ => exact absurd trivial hc
    | _ => rfl

theorem Expr.prolongs_subtraction {a : A} {op : V} {left left' right : Expr A Empty V (TypeExpr V)}
    {old : String} (hop : Named.bare op = "-") (hn : left.isNegation op = false)
    (hl : left'.doc config .whole = left.doc config .operand) (hk : left'.isLambda = false)
    (hr : ∀ anchor canvas, (right.doc config .operand).render anchor canvas = canvas.emit old) :
    Prolongs config (binop a op left right) (" - " ++ old) left' := by
  apply prolongs_of_whole rfl hk
  intro anchor canvas
  have operator : infixDoc op = .text "-" := by
    rw [infixDoc, hop]
    rfl
  have minus : " - " = " " ++ ("-" ++ " ") := by decide
  rw [Expr.doc, hn, operator, hl, Canvas.emit_append, minus, Canvas.emit_append, Canvas.emit_append]
  exact hr anchor _

end

end PhaseTree
