import PhaseTree.Proofs.Print.Grammar
import PhaseTree.Proofs.Print.SingleLine
import PhaseTree.Proofs.Tree.Notes

set_option autoImplicit false

namespace PhaseTree

open Lexeme

variable {A D T : Type}

/-- Raw expressions without forms of several lines, and with names that lexing tells apart. -/
inductive Expr.Plain : Expr A D RawName T → Prop where
  | int (a : A) {n : Int} (h : 0 ≤ n) : (lit a (.int n)).Plain
  | char (a : A) (c : Char) : (lit a (.char c)).Plain
  | text (a : A) (s : String) : (lit a (.text s)).Plain
  | var (a : A) {name : RawName} (h : isIdentifier name.text = true) : (var a name).Plain
  | range (a : A) {low high : Expr A D RawName T} : low.Plain → high.Plain → (range a low high).Plain
  | list (a : A) {items : List (Expr A D RawName T)} : (∀ e ∈ items, e.Plain) → (list a items).Plain
  | binop (a : A) {op : RawName} {left right : Expr A D RawName T}
      (h : Reserved.isOperator op.text = true ∧ op.text ≠ Reserved.cons ∨ isIdentifier op.text = true) :
      left.Plain → right.Plain → (binop a op left right).Plain
  | lambda (a : A) {name : String} {body : Expr A D RawName T} (h : isIdentifier name = true) :
      body.Plain → (lambda a (.var name) body).Plain
  | app (a : A) {func arg : Expr A D RawName T} : func.Plain → arg.Plain → (app a func arg).Plain
  | tuple (a : A) {components : List (Expr A D RawName T)} (h : 2 ≤ components.length) :
      (∀ e ∈ components, e.Plain) → (tuple a components).Plain
  | cons (a : A) {head tail : Expr A D RawName T} :
      head.Plain → tail.Plain → (data a Reserved.cons [head, tail]).Plain
  | access (a : A) {e : Expr A D RawName T} {field : String} (h : isIdentifier field = true) :
      e.Plain → (access a e field).Plain
  | record (a : A) {fields : List (String × Expr A D RawName T)}
      (h : ∀ field ∈ fields, isIdentifier field.1 = true) :
      (∀ field ∈ fields, field.2.Plain) → (record a fields).Plain

section

variable [Printable D] [Printable T] {config : Config}

theorem onOneLine_exprDocs {placement : Placement} {es : List (Expr A D RawName T)}
    (h : ∀ e ∈ es, (e.doc config placement).OnOneLine) :
    (Doc.separated ", " (exprDocs config placement es)).OnOneLine := by
  rw [exprDocs_eq]
  exact Doc.onOneLine_separated (List.forall_mem_map.2 h)

theorem onOneLine_fieldDocs {fields : List (String × Expr A D RawName T)}
    (h : ∀ field ∈ fields, ∀ placement, (field.2.doc config placement).OnOneLine) :
    (Doc.separated ", " (fieldDocs config " = " fields)).OnOneLine := by
  refine Doc.onOneLine_separated ?_
  induction fields with
  | nil => simp [fieldDocs]
  | cons field fields ih =>
    rw [fieldDocs, List.forall_mem_cons]
    exact ⟨⟨trivial, trivial, h field List.mem_cons_self _⟩,
      ih fun f hf => h f (List.mem_cons_of_mem _ hf)⟩

end

namespace Expr

variable [Printable D] [Printable T] {config : Config}

def flat (config : Config) (placement : Placement) (e : Expr A D RawName T) : List Char :=
  (e.doc config placement).flat

open Reader in
/-- The reader gets the expression back from each position that it is printed in. -/
structure ReadsBack (config : Config) (e : Expr A D RawName T) : Prop where
  operand : IsOperand (e.flat config .operand) e.withoutNotes
  phrase : IsPhrase (e.flat config .whole) e.withoutNotes
  chain : IsChain (e.flat config (.chained e.isApp)) e.withoutNotes
  sentence : IsSentence (e.flat config (.chained e.isCons)) e.withoutNotes
  params : e.isLambda = true → IsParams (e.flat config .continuing) e.withoutNotes

namespace ReadsBack

open Reader

variable {e f : Expr A D RawName T}

theorem atom (same : e.flat config .whole = e.flat config .operand) (happ : e.isApp = false)
    (hcons : e.isCons = false) (hlambda : e.isLambda = false)
    (h : IsOperand (e.flat config .operand) e.withoutNotes) : e.ReadsBack config where
  operand := h
  phrase := same ▸ h.isPhrase
  chain := by
    rw [happ]
    exact h.isChain
  sentence := by
    rw [hcons]
    exact h.isChain.isSentence
  params hl := by simp [hlambda] at hl

theorem compound (parens : e.flat config .operand = '(' :: (e.flat config .whole ++ [')']))
    (phrase : IsPhrase (e.flat config .whole) e.withoutNotes)
    (chain : e.isApp = true → IsChain (e.flat config .whole) e.withoutNotes)
    (sentence : e.isCons = true → IsSentence (e.flat config .whole) e.withoutNotes)
    (params : e.isLambda = true → IsParams (e.flat config .continuing) e.withoutNotes) :
    e.ReadsBack config where
  operand := parens ▸ phrase.parens
  phrase := phrase
  chain := by
    cases happ : e.isApp with
    | true => exact chain happ
    | false => exact (parens ▸ phrase.parens : IsOperand (e.flat config .operand) _).isChain
  sentence := by
    cases hcons : e.isCons with
    | true => exact sentence hcons
    | false => exact (parens ▸ phrase.parens : IsOperand (e.flat config .operand) _).isChain.isSentence
  params := params

variable (a : A)

theorem int {n : Int} (h : 0 ≤ n) : (lit a (.int n) : Expr A D RawName T).ReadsBack config := by
  obtain ⟨n, rfl⟩ := Int.eq_ofNat_of_zero_le h
  have hd : ∀ placement,
      (lit a (.int n) : Expr A D RawName T).flat config placement = n.repr.toList := by
    intro placement
    have hn : ¬ (n : Int) < 0 := by omega
    simp only [flat, Expr.doc, Literal.doc, Literal.isCompound, Placement.wrapIf, hn, decide_false]
    rfl
  refine atom ?_ rfl rfl rfl ?_
  · rw [hd, hd]
  · rw [hd]
    exact isOperand_int n

theorem char (c : Char) : (lit a (.char c) : Expr A D RawName T).ReadsBack config :=
  atom rfl rfl rfl rfl (isOperand_char c)

theorem text (s : String) : (lit a (.text s) : Expr A D RawName T).ReadsBack config :=
  atom rfl rfl rfl rfl (isOperand_text s)

theorem var {name : RawName} (h : isIdentifier name.text = true) :
    (var a name : Expr A D RawName T).ReadsBack config := by
  have hd : (Expr.var a name : Expr A D RawName T).flat config .operand = name.text.toList := by
    simp only [flat, Expr.doc, nameDoc, bare_raw, isOperator_of_isIdentifier h]
    rfl
  exact atom rfl rfl rfl rfl (hd ▸ isOperand_var h)

theorem range (he : e.ReadsBack config) (hf : f.ReadsBack config) :
    (range a e f).ReadsBack config :=
  atom rfl rfl rfl rfl (he.operand.range hf.operand)

theorem app (he : e.ReadsBack config) (hf : f.ReadsBack config) : (app a e f).ReadsBack config := by
  have h : IsChain ((Expr.app a e f).flat config .whole) (Expr.app a e f).withoutNotes :=
    he.chain.app hf.operand
  refine compound rfl h.isSentence.isPhrase (fun _ => h) (fun hc => ?_) (fun hl => ?_)
  · contradiction
  · contradiction

theorem infixName_infixDoc {op : RawName}
    (h : Reserved.isOperator op.text = true ∧ op.text ≠ Reserved.cons ∨ isIdentifier op.text = true)
    (rest : List Char) : infixName ((infixDoc op).flat ++ ' ' :: rest) = some (op.text, rest) := by
  unfold infixDoc
  rcases h with ⟨ho, -⟩ | hi
  · rw [bare_raw, if_pos ho]
    exact infixName_symbol ho rest
  · rw [bare_raw, isOperator_of_isIdentifier hi, if_neg Bool.false_ne_true, display_raw,
      Doc.flat_between, Doc.flat_text, List.append_assoc, List.append_assoc]
    exact infixName_word hi rest

theorem binop {op : RawName}
    (h : Reserved.isOperator op.text = true ∧ op.text ≠ Reserved.cons ∨ isIdentifier op.text = true)
    (he : e.ReadsBack config) (hf : f.ReadsBack config) : (binop a op e f).ReadsBack config := by
  have hp : IsPhrase ((Expr.binop a op e f).flat config .whole)
      (Expr.binop a op e f).withoutNotes := by
    cases hn : e.isNegation op with
    | true =>
      have hd : (Expr.binop a op e f).flat config .whole = '-' :: f.flat config .operand := by
        simp only [flat, Expr.doc, hn, if_true]
        rfl
      obtain ⟨ho, hz⟩ := Bool.and_eq_true_iff.1 hn
      have hop : op = ⟨"-"⟩ := congrArg RawName.mk (eq_of_beq ho)
      rw [hd, withoutNotes, withoutNotes_of_isInt hz, hop]
      exact hf.operand.negation
    | false =>
      have hd : (Expr.binop a op e f).flat config .whole =
          e.flat config .operand ++ ' ' :: ((infixDoc op).flat ++ ' ' :: f.flat config .operand) := by
        simp [flat, Expr.doc, hn, Placement.wrap_whole]
      have hc : op.text ≠ Reserved.cons := by
        rcases h with ⟨-, ho⟩ | hi
        · exact ho
        · intro hc
          rw [hc] at hi
          contradiction
      rw [hd, withoutNotes]
      exact (he.operand.binop (infixName_infixDoc h) hc hf.operand).isPhrase
  refine compound ?_ hp (fun hc => ?_) (fun hc => ?_) (fun hl => ?_)
  · rfl
  all_goals contradiction

theorem lambda {name : String} (h : isIdentifier name = true) (he : e.ReadsBack config) :
    (lambda a (.var name) e).ReadsBack config := by
  have hp : IsParams ((Expr.lambda a (.var name) e).flat config .continuing)
      (Expr.lambda a (.var name) e).withoutNotes := by
    have hd : (Pattern.var name : Pattern RawName).doc .operand = .text name := by
      rw [Pattern.doc, bareDoc, isOperator_of_isIdentifier h]
      rfl
    cases hl : e.isLambda with
    | true =>
      have hf : (Expr.lambda a (.var name) e).flat config .continuing =
          name.toList ++ ' ' :: e.flat config .continuing := by
        simp [flat, Expr.doc, hd, hl]
      rw [hf, withoutNotes]
      exact (he.params hl).lambda h
    | false =>
      have hf : (Expr.lambda a (.var name) e).flat config .continuing =
          name.toList ++ (" -> ".toList ++ e.flat config .whole) := by
        simp [flat, Expr.doc, hd, hl]
      rw [hf, withoutNotes]
      exact he.phrase.lambda h
  have hw : (Expr.lambda a (.var name) e).flat config .whole =
      '\\' :: (Expr.lambda a (.var name) e).flat config .continuing := by
    rw [flat, doc_lambda_whole]
    rfl
  refine compound rfl (hw ▸ hp.isPhrase) (fun hc => ?_) (fun hc => ?_) (fun _ => hp)
  · contradiction
  · contradiction

theorem cons (he : e.ReadsBack config) (hf : f.ReadsBack config) :
    (data a Reserved.cons [e, f]).ReadsBack config := by
  have h : IsSentence ((data a Reserved.cons [e, f]).flat config .whole)
      (data a Reserved.cons [e, f]).withoutNotes :=
    he.operand.cons hf.sentence
  refine compound rfl h.isPhrase (fun hc => ?_) (fun _ => h) (fun hl => ?_)
  · contradiction
  · contradiction

theorem access {field : String} (h : isIdentifier field = true) (he : e.ReadsBack config) :
    (access a e field).ReadsBack config :=
  atom rfl rfl rfl rfl (he.operand.access h)

section

variable {es : List (Expr A D RawName T)}

theorem items (h : ∀ e ∈ es, e.ReadsBack config) (hne : es ≠ []) :
    IsItems (Doc.separated ", " (exprDocs config .whole es)).flat (es.map withoutNotes) := by
  induction es with
  | nil => contradiction
  | cons e es ih =>
    have he := h e List.mem_cons_self
    cases es with
    | nil => exact he.phrase.items
    | cons f es =>
      exact .cons he.phrase (ih (fun e hm => h e (List.mem_cons_of_mem _ hm)) (List.cons_ne_nil f es))

theorem list (h : ∀ e ∈ es, e.ReadsBack config) : (list a es).ReadsBack config := by
  refine atom rfl rfl rfl rfl ?_
  rw [withoutNotes, exprsWithoutNotes_eq]
  cases es with
  | nil => exact isOperand_nil
  | cons e es => exact (items h (List.cons_ne_nil e es)).list

theorem tuple (hl : 2 ≤ es.length) (h : ∀ e ∈ es, e.ReadsBack config) :
    (tuple a es).ReadsBack config := by
  have hd : ∀ placement, (Expr.tuple a es).flat config placement =
      '(' :: ((Doc.separated ", " (exprDocs config .whole es)).flat ++ [')']) := by
    intro placement
    rw [flat, Expr.tuple, Expr.doc, Sugar.of_tuple]
    rfl
  have hne : es ≠ [] := by
    rintro rfl
    contradiction
  refine atom ?_ rfl ?_ rfl ?_
  · rw [hd, hd]
  · rw [Expr.tuple, isCons, Sugar.of_tuple]
    rfl
  · have ho := (items h hne).tuple (by simpa using hl)
    rw [hd, Expr.tuple, withoutNotes, exprsWithoutNotes_eq]
    rwa [Expr.tuple, List.length_map] at ho

end

theorem fields {fs : List (String × Expr A D RawName T)}
    (hn : ∀ field ∈ fs, isIdentifier field.1 = true) (h : ∀ field ∈ fs, field.2.ReadsBack config)
    (hne : fs ≠ []) :
    IsFields (Doc.separated ", " (fieldDocs config " = " fs)).flat
      (fs.map fun field => (field.1, field.2.withoutNotes)) := by
  induction fs with
  | nil => contradiction
  | cons field fs ih =>
    have he := h field List.mem_cons_self
    have hf := hn field List.mem_cons_self
    cases fs with
    | nil => exact .single he.phrase hf
    | cons next fs =>
      have hs := ih (fun e hm => hn e (List.mem_cons_of_mem _ hm))
        (fun e hm => h e (List.mem_cons_of_mem _ hm)) (List.cons_ne_nil next fs)
      exact .cons he.phrase hf hs

theorem record {fs : List (String × Expr A D RawName T)}
    (hn : ∀ field ∈ fs, isIdentifier field.1 = true) (h : ∀ field ∈ fs, field.2.ReadsBack config) :
    (record a fs).ReadsBack config := by
  refine atom rfl rfl rfl rfl ?_
  rw [withoutNotes, fieldsWithoutNotes_eq]
  cases fs with
  | nil => exact isOperand_emptyRecord
  | cons field fs => exact (fields hn h (List.cons_ne_nil field fs)).record

end ReadsBack

theorem Plain.readsBack {e : Expr A D RawName T} (h : e.Plain) (config : Config) :
    e.ReadsBack config := by
  induction h with
  | int a h => exact .int a h
  | char a c => exact .char a c
  | text a s => exact .text a s
  | var a h => exact .var a h
  | range a _ _ low high => exact .range a low high
  | list a _ items => exact .list a items
  | binop a h _ _ left right => exact .binop a h left right
  | lambda a h _ body => exact .lambda a h body
  | app a _ _ func arg => exact .app a func arg
  | tuple a h _ components => exact .tuple a h components
  | cons a _ _ head tail => exact .cons a head tail
  | access a h _ e => exact .access a h e
  | record a h _ fields => exact .record a h fields

theorem Plain.onOneLine {e : Expr A D RawName T} (h : e.Plain) (config : Config)
    (placement : Placement) : (e.doc config placement).OnOneLine := by
  induction h generalizing placement with
  | int a _ | char a _ | text a _ => simp [Expr.doc, Literal.doc]
  | var a _ => simp [Expr.doc, nameDoc]
  | range a _ _ low high => simp [Expr.doc, low, high]
  | list a _ items =>
    rw [Expr.doc, Doc.onOneLine_brackets]
    exact onOneLine_exprDocs fun e he => items e he .whole
  | binop a _ _ _ left right =>
    rw [Expr.doc, Placement.onOneLine_wrap]
    split <;> simp [onOneLine_infixDoc, left, right]
  | @lambda a name body _ _ hb =>
    have hp : ((Pattern.var name : Pattern RawName).doc .operand).OnOneLine := by
      simp [Pattern.doc, bareDoc]
    have hm : ∀ placement, (if body.isLambda then Doc.text " " ++ body.doc config .continuing
        else .text " -> " ++ body.doc config placement).OnOneLine := by
      intro placement
      split <;> simp [hb]
    cases placement <;> simp [Expr.doc, hp, hm]
  | app a _ _ func arg => simp [Expr.doc, func, arg]
  | tuple a _ _ items =>
    rw [Expr.tuple, Expr.doc, Sugar.of_tuple]
    exact (Doc.onOneLine_parens _).2 (onOneLine_exprDocs fun e he => items e he .whole)
  | cons a _ _ head tail =>
    refine (Placement.onOneLine_wrap placement _).2 ?_
    exact ⟨head _, trivial, tail _⟩
  | access a _ _ e => simp [Expr.doc, e]
  | record a _ _ fields =>
    rw [Expr.doc, Doc.onOneLine_braces]
    exact onOneLine_fieldDocs fun field hf => fields field hf

theorem Plain.reads_format {e : Expr A D RawName T} (h : e.Plain) (config : Config) :
    Reader.Reads (·.phrase (format config e).toList) (e.withoutNotes, []) := by
  have hflat : (format config e).toList = e.flat config .whole :=
    (e.doc config .whole).toText_flat (h.onOneLine config .whole)
  have hread := (h.readsBack config).phrase.reads [] rfl
  rwa [List.append_nil, ← hflat] at hread

/-- Expressions of one line that print alike, in whichever layout, differ in their notes at most. -/
theorem eq_of_format_eq {B : Type} (config : Config) (e : Expr A D RawName T) (f : Expr B D RawName T)
    (he : e.Plain) (hf : f.Plain) (same : format config e = format config f) :
    e.withoutNotes = f.withoutNotes := by
  have hre := he.reads_format config
  rw [same] at hre
  exact congrArg Prod.fst (hre.eq (hf.reads_format config))

theorem eq_of_format_eq_negation :
    let x (a : Span) : ParsedExpr := .var a ⟨"x"⟩
    let e (a : Span) : ParsedExpr := .lambda a (.var "x")
      (.app a (x a) (.binop a ⟨"-"⟩ (.lit a (.int 0)) (x a)))
    (e .synthetic).Plain ∧ (e ⟨0, 9⟩).Plain ∧
      format .standard (e .synthetic) = format .standard (e ⟨0, 9⟩) ∧
      (e .synthetic).withoutNotes = (e ⟨0, 9⟩).withoutNotes := by
  intro x e
  have plain : ∀ a, (e a).Plain := by
    intro a
    have hx : (x a).Plain := .var a rfl
    have hn : (binop a ⟨"-"⟩ (lit a (.int 0)) (x a)).Plain :=
      .binop a (.inl (by decide)) (.int a (by decide)) hx
    exact .lambda a rfl (.app a hx hn)
  have same : format .standard (e .synthetic) = format .standard (e ⟨0, 9⟩) := rfl
  exact ⟨plain _, plain _, same, eq_of_format_eq .standard _ _ (plain _) (plain _) same⟩

end Expr

end PhaseTree
