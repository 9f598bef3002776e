import PhaseTree.Proofs.Print.SingleLine
import PhaseTree.Proofs.Print.TypeReader
import PhaseTree.Proofs.Tree.Chains

set_option autoImplicit false

namespace PhaseTree.TypeExpr

open Descent Filter Lexeme TypeReader

variable {letters : Alphabet}

/-- Raw types with names that lexing tells apart. Tuple constructors are heads of tuples and nothing else. -/
inductive Plain (letters : Alphabet) : TypeExpr RawName → Prop where
  | function {argument result : TypeExpr RawName} :
      Plain letters argument → Plain letters result → Plain letters (function argument result)
  | var {name : String} (h : letters.IsName .lower name) : Plain letters (var name)
  | con {name : RawName} (h : letters.IsName .upper name.text) : Plain letters (con name)
  | app {head : TypeExpr RawName} {args : List (TypeExpr RawName)} (h : args ≠ []) :
      Plain letters head → (∀ t ∈ args, Plain letters t) → Plain letters (app head args)
  | tuple {args : List (TypeExpr RawName)} (h : 2 ≤ args.length) :
      (∀ t ∈ args, Plain letters t) → Plain letters (app (con ⟨Reserved.tupleName args.length⟩) args)
  | record {fields : List (String × TypeExpr RawName)} {extension : Option (TypeExpr RawName)}
      (h : ∀ field ∈ fields, IsNameText field.1) : (∀ field ∈ fields, Plain letters field.2) →
      (∀ t ∈ extension, Plain letters t) → Plain letters (record fields extension)

theorem Plain.isTupleHead_eq_false {t : TypeExpr RawName} (h : t.Plain letters) :
    t.isTupleHead = false := by
  cases h with
  | con h => exact h.isTupleName_eq_false
  | function _ _ | var _ | app _ _ _ | tuple _ _ | record _ _ _ => rfl

def flat (placement : Placement) (t : TypeExpr RawName) : List Char := (t.doc placement).flat

theorem flat_app {head : TypeExpr RawName} {args : List (TypeExpr RawName)} (h : head.isTupleHead = false)
    (hne : args ≠ []) : (app head args).flat .whole =
      head.flat .operand ++ args.flatMap fun t => ' ' :: t.flat .operand := by
  have compound : (!args.isEmpty) = true := by simpa using hne
  simp only [flat, doc, h, compound, Placement.wrapIf, Placement.wrap_whole, Doc.flat_applied, docs_eq,
    List.flatMap_map, Bool.false_eq_true, if_false, if_true]

theorem flat_app_operand {head : TypeExpr RawName} {args : List (TypeExpr RawName)}
    (h : head.isTupleHead = false) (hne : args ≠ []) :
    (app head args).flat .operand = '(' :: ((app head args).flat .whole ++ [')']) := by
  have compound : (!args.isEmpty) = true := by simpa using hne
  simp only [flat, doc, h, compound, Placement.wrapIf, Placement.wrap_whole, Placement.wrap_operand,
    Doc.flat_parens, Bool.false_eq_true, if_false, if_true]

theorem flat_tuple (placement : Placement) (args : List (TypeExpr RawName)) :
    (app (con ⟨Reserved.tupleName args.length⟩) args).flat placement =
      '(' :: (", ".toList.intercalate (args.map (flat .whole)) ++ [')']) := by
  have ht : (con ⟨Reserved.tupleName args.length⟩ : TypeExpr RawName).isTupleHead = true :=
    Reserved.isTupleName_tupleName args.length
  rw [flat, doc, if_pos ht, Doc.flat_parens, Doc.flat_separated, docs_eq, List.map_map]
  rfl

theorem flat_fieldDocs (fields : List (String × TypeExpr RawName)) :
    (fieldDocs fields).map Doc.flat = fields.map (fieldText (flat .whole)) := by
  induction fields with
  | nil => rfl
  | cons field fields ih => exact congrArg (fieldText (flat .whole) field :: ·) ih

theorem flat_extensionDoc (extension : Option (TypeExpr RawName)) :
    (extensionDoc extension).flat = extensionText (flat .whole) extension := by
  cases extension <;> rfl

theorem flat_record {fields : List (String × TypeExpr RawName)} {extension : Option (TypeExpr RawName)}
    (h : fields ≠ [] ∨ extension ≠ none) (placement : Placement) :
    (record fields extension).flat placement =
      "\x7b ".toList ++ (extensionText (flat .whole) extension ++
        (fieldsText (flat .whole) fields ++ " \x7d".toList)) := by
  have hc : (fields.isEmpty && extension.isNone) = false := by
    rw [Bool.and_eq_false_iff, List.isEmpty_eq_false_iff, Option.isNone_eq_false_iff,
      Option.isSome_iff_ne_none]
    exact h
  rw [flat, doc, hc, fieldsText, ← flat_fieldDocs, ← Doc.flat_separated, ← flat_extensionDoc]
  simp only [Bool.false_eq_true, if_false, Doc.braces, Doc.flat_between, Doc.flat_append,
    List.append_assoc]
  rfl

/-- The reader gets the type back from each position that it is printed in. -/
structure ReadsBack (letters : Alphabet) (t : TypeExpr RawName) : Prop where
  opens : (t.flat .operand).head?.any isOpening = true
  operand : Settles (TypeReader.operand letters) nameEnds (t.flat .operand) t
  link : Settles (TypeReader.link letters) linkEnds (t.flat (.ofParens t.isFunction)) t
  whole : Settles (TypeReader.whole letters) wholeEnds (t.flat .whole) t

namespace ReadsBack

variable {t t' : TypeExpr RawName} {text : List Char} {args : List (TypeExpr RawName)}

theorem settles_parens (h : Settles (TypeReader.whole letters) wholeEnds text t) :
    Settles (TypeReader.operand letters) nameEnds ('(' :: (text ++ [')'])) t := by
  refine settles_of_succ ?_
  filter_upwards [h, eventually_ge_atTop 1] with depth ht hd
  exact takes_parens ht hd

theorem settles_alone (h : Settles (TypeReader.operand letters) nameEnds text t) :
    Settles (TypeReader.link letters) linkEnds text t := by
  filter_upwards [h, eventually_gt_atTop 0] with depth ht hd
  exact takes_alone ht hd

theorem settles_whole (h : Settles (TypeReader.link letters) linkEnds text t) :
    Settles (TypeReader.whole letters) wholeEnds text t :=
  settles_of_succ (Eventually.mono h fun _ => takes_whole)

theorem atom (hf : t.isFunction = false) (opens : (t.flat .operand).head?.any isOpening = true)
    (same : t.flat .whole = t.flat .operand)
    (h : Settles (TypeReader.operand letters) nameEnds (t.flat .operand) t) : t.ReadsBack letters := by
  have hl := settles_alone h
  rw [← same] at hl
  exact ⟨opens, h, by rwa [hf], settles_whole hl⟩

theorem function (h : t.ReadsBack letters) (h' : t'.ReadsBack letters) :
    (function t t').ReadsBack letters := by
  have hw : Settles (TypeReader.whole letters) wholeEnds ((TypeExpr.function t t').flat .whole)
      (TypeExpr.function t t') := by
    refine settles_of_succ ?_
    filter_upwards [h.link, h'.whole] with depth ht ht'
    exact takes_function ht ht'
  have ho : Settles (TypeReader.operand letters) nameEnds ((TypeExpr.function t t').flat .operand)
      (TypeExpr.function t t') := settles_parens hw
  exact ⟨rfl, ho, settles_alone ho, hw⟩

theorem name {name : String} (h : IsNameText name) (hd : ∀ placement, t.flat placement = name.toList)
    (hf : t.isFunction = false)
    (ht : (if letters.initialCase name = some .lower then .var name else .con ⟨name⟩) = t) :
    t.ReadsBack letters := by
  obtain ⟨c, cs, hc, hpart⟩ := h.exists_cons
  refine atom hf ?_ (by rw [hd, hd]) ?_
  · simp [hd, hc, isOpening, hpart]
  · rw [hd, ← ht]
    exact settles_of_succ (.of_forall fun _ => takes_named h)

theorem app (htuple : t.isTupleHead = false) (hne : args ≠ []) (h : t.ReadsBack letters)
    (hargs : ∀ t ∈ args, t.ReadsBack letters) : (app t args).ReadsBack letters := by
  have hl : Settles (TypeReader.link letters) linkEnds ((TypeExpr.app t args).flat .whole)
      (TypeExpr.app t args) := by
    rw [flat_app htuple hne]
    filter_upwards [h.operand, Settles.forall_mem fun t ht => (hargs t ht).operand,
      eventually_gt_atTop args.length] with depth ht hts hd
    have hhead : ofHead t args = TypeExpr.app t args := by
      cases args with
      | nil => contradiction
      | cons _ _ => rfl
    rw [← hhead]
    exact takes_application ht hts (fun t ht => (hargs t ht).opens) hd
  have hw := settles_whole hl
  have hp := flat_app_operand htuple hne
  have ho := settles_parens hw
  rw [← hp] at ho
  exact ⟨by rw [hp]; rfl, ho, hl, hw⟩

theorem tuple (hlen : 2 ≤ args.length) (hargs : ∀ t ∈ args, t.ReadsBack letters) :
    (TypeReader.tuple args).ReadsBack letters := by
  have hd : ∀ placement, (TypeReader.tuple args).flat placement = _ :=
    fun placement => flat_tuple placement args
  refine atom rfl (by rw [hd]; rfl) (by rw [hd, hd]) ?_
  rw [hd]
  refine settles_of_succ ?_
  filter_upwards [Settles.forall_mem fun t ht => (hargs t ht).whole, eventually_ge_atTop args.length]
    with depth hts hd
  exact takes_tuple hts hlen hd

theorem record {fields : List (String × TypeExpr RawName)} {extension : Option (TypeExpr RawName)}
    (names : ∀ field ∈ fields, IsNameText field.1) (hfields : ∀ field ∈ fields, field.2.ReadsBack letters)
    (hextension : ∀ t ∈ extension, t.ReadsBack letters) :
    (TypeExpr.record fields extension).ReadsBack letters := by
  by_cases hne : fields ≠ [] ∨ extension ≠ none
  · have hd := flat_record hne
    refine atom rfl (by rw [hd]; rfl) (by rw [hd, hd]) ?_
    rw [hd]
    refine settles_of_succ ?_
    filter_upwards [Settles.forall_mem fun field hf => (hfields field hf).whole,
      Settles.forall_mem fun t ht => (hextension t (Option.mem_toList.1 ht)).whole,
      eventually_ge_atTop fields.length, eventually_ge_atTop 2] with depth hfs hext hb hd
    exact takes_record names hfs (fun t ht => hext t (Option.mem_toList.2 ht)) hne hb hd
  · rw [not_or, not_not, not_not] at hne
    obtain ⟨rfl, rfl⟩ := hne
    refine atom rfl rfl rfl (settles_of_succ (.of_forall fun depth rest _ => ?_))
    change TypeReader.operand letters (depth + 1) ('\x7b' :: '\x7d' :: rest) = _
    rw [TypeReader.operand]

end ReadsBack

theorem Plain.readsBack {t : TypeExpr RawName} (h : t.Plain letters) : t.ReadsBack letters := by
  induction h with
  | function _ _ argument result => exact argument.function result
  | var h => exact .name h.isNameText (fun _ => rfl) rfl (if_pos h.initial)
  | con h => exact .name h.isNameText (fun _ => rfl) rfl (if_neg (by rw [h.initial]; nofun))
  | app hne plain _ head args => exact head.app plain.isTupleHead_eq_false hne args
  | tuple hlen _ args => exact .tuple hlen args
  | record names _ _ fields extension => exact .record names fields extension

/-- Types that print alike, with or without parentheses around compound ones, are the same. -/
theorem type_eq_of_text_eq (config : Config) (parens : Bool) {t t' : TypeExpr RawName} (h : t.Plain letters)
    (h' : t'.Plain letters) {canvas : Canvas} (same : (draw config (.ofParens parens) t canvas).text =
      (draw config (.ofParens parens) t' canvas).text) : t = t' := by
  have hflat : t.flat (.ofParens parens) = t'.flat (.ofParens parens) :=
    Doc.flat_eq_of_text_eq (t.doc_onOneLine _) (t'.doc_onOneLine _) same
  cases parens with
  | false => exact h.readsBack.whole.unique h'.readsBack.whole hflat rfl
  | true => exact h.readsBack.operand.unique h'.readsBack.operand hflat rfl

theorem type_eq_of_text_eq_nested :
    let a : TypeExpr RawName := var "a"
    let parts : List (TypeExpr RawName) := [a, con ⟨"Maybe"⟩]
    let pair : TypeExpr RawName := app (con ⟨Reserved.tupleName parts.length⟩) parts
    let extended : TypeExpr RawName := record [("x", app pair [a])] (some a)
    let t : TypeExpr RawName := function (function a pair) (function a extended)
    let t' : TypeExpr RawName := functions [functions [a] pair, a] extended
    t.Plain default ∧ t'.Plain default ∧
      format .standard t = "(a -> (a, Maybe)) -> a -> \x7b a | x : (a, Maybe) a \x7d" ∧
      format .standard t = format .standard t' ∧ t = t' := by
  intro a parts pair extended t t'
  have ha : a.Plain default := .var ⟨by decide, by decide⟩
  have hmaybe : (con ⟨"Maybe"⟩ : TypeExpr RawName).Plain default := .con ⟨by decide, by decide⟩
  have hpair : pair.Plain default := .tuple le_rfl (by simp [parts, ha, hmaybe])
  have hfield : (app pair [a]).Plain default := .app (by simp) hpair (by simp [ha])
  have hextended : extended.Plain default :=
    .record (List.forall_mem_singleton.2 ⟨by decide, by decide⟩) (by simp [hfield]) (by simp [ha])
  have ht : t.Plain default := .function (.function ha hpair) (.function ha hextended)
  have text : format .standard t = "(a -> (a, Maybe)) -> a -> \x7b a | x : (a, Maybe) a \x7d" := by
    decide +kernel
  have same : format .standard t = format .standard t' := rfl
  exact ⟨ht, ht, text, same, type_eq_of_text_eq .standard false ht ht same⟩

end PhaseTree.TypeExpr
