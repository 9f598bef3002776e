import PhaseTree.Proofs.Print.PatternReader
import PhaseTree.Proofs.Print.SingleLine
import PhaseTree.Proofs.Tree.Chains

set_option autoImplicit false

namespace PhaseTree.Pattern

open Descent Filter Lexeme PatternReader

variable {letters : Alphabet}

structure IsVariable (letters : Alphabet) (name : String) : Prop where
  isName : letters.IsName .lower name
  ne_as : name ≠ "as"

/-- Raw patterns with names that lexing tells apart, and without floats. Reserved constructors have as many
arguments as the sugar for them. -/
inductive Plain (letters : Alphabet) : Pattern RawName → Prop where
  | data {name : RawName} {args : List (Pattern RawName)} (h : letters.IsName .upper name.text)
      (ht : name.text ≠ "True") (hf : name.text ≠ "False") :
      (∀ p ∈ args, Plain letters p) → Plain letters (data name args)
  | cons {head tail : Pattern RawName} :
      Plain letters head → Plain letters tail → Plain letters (data ⟨Reserved.cons⟩ [head, tail])
  | nil : Plain letters (data ⟨Reserved.nil⟩ [])
  | tuple {args : List (Pattern RawName)} (h : 2 ≤ args.length) :
      (∀ p ∈ args, Plain letters p) → Plain letters (data ⟨Reserved.tupleName args.length⟩ args)
  | record {fields : List String} (h : ∀ field ∈ fields, IsVariable letters field) :
      Plain letters (record fields)
  | named {name : String} {inner : Pattern RawName} (h : IsVariable letters name) :
      Plain letters inner → Plain letters (named name inner)
  | var {name : String} (h : IsVariable letters name) : Plain letters (var name)
  | any : Plain letters any
  | int (n : Int) : Plain letters (lit (.int n))
  | char (c : Char) : Plain letters (lit (.char c))
  | text (s : String) : Plain letters (lit (.text s))
  | bool (b : Bool) : Plain letters (lit (.bool b))

def flat (placement : Placement) (p : Pattern RawName) : List Char := (p.doc placement).flat

section

variable {name : RawName} {args : List (Pattern RawName)}

theorem isCons_data (h : letters.IsName .upper name.text) (args : List (Pattern RawName)) :
    (data name args).isCons = false := by
  rw [isCons, bare_raw, h.sugar_eq_plain]
  rfl

theorem flat_constant (h : letters.IsName .upper name.text) (placement : Placement) :
    (data name []).flat placement = name.text.toList := by
  rw [flat, doc, bare_raw, h.sugar_eq_plain]
  exact List.append_nil _

theorem flat_data (h : letters.IsName .upper name.text) :
    (data name args).flat .whole = name.text.toList ++ args.flatMap fun p => ' ' :: p.flat .operand := by
  have hd : (data name args).doc .whole = .applied (.text name.text) (docs .operand args) := by
    rw [doc, bare_raw, h.sugar_eq_plain]
    cases args <;> rfl
  rw [flat, hd, Doc.flat_applied, docs_eq, List.flatMap_map]
  rfl

theorem flat_data_operand (h : letters.IsName .upper name.text) (hne : args ≠ []) :
    (data name args).flat .operand = '(' :: ((data name args).flat .whole ++ [')']) := by
  cases args with
  | nil => contradiction
  | cons p ps =>
    rw [flat, flat, doc, doc, bare_raw, h.sugar_eq_plain]
    rfl

theorem flat_tuple (placement : Placement) (args : List (Pattern RawName)) :
    (data ⟨Reserved.tupleName args.length⟩ args).flat placement =
      '(' :: (", ".toList.intercalate (args.map (flat .whole)) ++ [')']) := by
  rw [flat, doc, bare_raw, Sugar.of_tuple]
  simp only [Doc.flat_parens, Doc.flat_separated, docs_eq, List.map_map]
  rfl

theorem flat_record (placement : Placement) (fields : List String) :
    (record fields : Pattern RawName).flat placement =
      '\x7b' :: (", ".toList.intercalate (fields.map String.toList) ++ ['\x7d']) := by
  rw [flat, doc, Doc.braces, Doc.flat_between, Doc.flat_separated, List.map_map]
  rfl

theorem flat_bareDoc {name : String} (h : IsVariable letters name) : (bareDoc name).flat = name.toList := by
  rw [bareDoc, h.isName.isOperator_eq_false]
  rfl

theorem flat_nat (placement : Placement) (n : Nat) :
    (lit (.int n) : Pattern RawName).flat placement = n.repr.toList := by
  have hn : ¬ (n : Int) < 0 := by omega
  simp only [flat, doc, Literal.doc, Literal.isCompound, Placement.wrapIf, hn, decide_false]
  rfl

theorem doc_negative (placement : Placement) (n : Nat) :
    (lit (.int (.negSucc n)) : Pattern RawName).doc placement =
      placement.wrap (.text (Literal.int (.negSucc n)).spelling) := by
  have hn : Int.negSucc n < 0 := Int.negSucc_lt_zero n
  simp only [doc, Literal.doc, Literal.isCompound, Placement.wrapIf, hn, decide_true, if_true]

theorem flat_negative (n : Nat) :
    (lit (.int (.negSucc n)) : Pattern RawName).flat .whole = '-' :: (n + 1).repr.toList := by
  rw [flat, doc_negative]
  exact String.toList_append

theorem flat_negative_operand (n : Nat) : (lit (.int (.negSucc n)) : Pattern RawName).flat .operand =
    '(' :: ((lit (.int (.negSucc n)) : Pattern RawName).flat .whole ++ [')']) := by
  rw [flat, flat, doc_negative, doc_negative]
  rfl

end

/-- The reader gets the pattern back from each position that it is printed in. -/
structure ReadsBack (letters : Alphabet) (p : Pattern RawName) : Prop where
  apart : Apart (p.flat .operand)
  operand : Settles (PatternReader.operand letters) nameEnds (p.flat .operand) p
  sentence : Settles (PatternReader.sentence letters) sentenceEnds (p.flat (.chained p.isCons)) p
  phrase : Settles (PatternReader.phrase letters) sentenceEnds (p.flat .whole) p

namespace ReadsBack

variable {p q : Pattern RawName} {body : List Char} {args : List (Pattern RawName)}

theorem settles_parens (h : Settles (PatternReader.phrase letters) sentenceEnds body p) :
    Settles (PatternReader.operand letters) nameEnds ('(' :: (body ++ [')'])) p := by
  refine settles_of_succ ?_
  filter_upwards [h, eventually_ge_atTop 1] with depth hp hd
  exact takes_parens hp hd

theorem settles_alone (h : Settles (PatternReader.operand letters) nameEnds body p) :
    Settles (PatternReader.sentence letters) sentenceEnds body p := by
  refine settles_of_succ ?_
  filter_upwards [h, eventually_gt_atTop 0] with depth ht hd
  exact takes_alone ht hd

theorem settles_phrase (ho : body.head?.any isOpening = true)
    (h : Settles (PatternReader.sentence letters) sentenceEnds body p) :
    Settles (PatternReader.phrase letters) sentenceEnds body p :=
  Eventually.mono h fun _ => takes_whole ho

theorem atom (hc : p.isCons = false) (same : p.flat .whole = p.flat .operand)
    (apart : Apart (p.flat .operand))
    (h : Settles (PatternReader.operand letters) nameEnds (p.flat .operand) p) : p.ReadsBack letters where
  apart := apart
  operand := h
  sentence := by
    rw [hc]
    exact settles_alone h
  phrase := by
    rw [same]
    exact settles_phrase apart.opens (settles_alone h)

theorem compound (parens : p.flat .operand = '(' :: (p.flat .whole ++ [')']))
    (sentence : p.isCons = true → Settles (PatternReader.sentence letters) sentenceEnds (p.flat .whole) p)
    (phrase : Settles (PatternReader.phrase letters) sentenceEnds (p.flat .whole) p) :
    p.ReadsBack letters := by
  have ho := settles_parens phrase
  rw [← parens] at ho
  refine ⟨?_, ho, ?_, phrase⟩
  · rw [parens]
    exact apart_cons rfl (by decide) _
  · cases hc : p.isCons with
    | true => exact sentence hc
    | false => exact settles_alone ho

theorem cons (h : p.ReadsBack letters) (h' : q.ReadsBack letters) :
    (data ⟨Reserved.cons⟩ [p, q]).ReadsBack letters := by
  have hs : Settles (PatternReader.sentence letters) sentenceEnds ((data ⟨Reserved.cons⟩ [p, q]).flat .whole)
      (data ⟨Reserved.cons⟩ [p, q]) := by
    refine settles_of_succ ?_
    filter_upwards [h.operand, h'.sentence] with depth hp hq
    exact takes_cons hp hq
  exact compound rfl (fun _ => hs) (settles_phrase (h.apart.opens_append _) hs)

theorem named {name : String} (hn : IsVariable letters name) (h : p.ReadsBack letters) :
    (Pattern.named name p).ReadsBack letters := by
  have hd : (Pattern.named name p).flat .whole = p.flat .operand ++ (" as ".toList ++ name.toList) := by
    rw [← flat_bareDoc hn]
    rfl
  have hs : Settles (PatternReader.sentence letters) sentenceEnds ((Pattern.named name p).flat .whole)
      (Pattern.named name p) := by
    rw [hd]
    refine settles_of_succ (Eventually.mono h.operand fun _ hp => ?_)
    exact takes_named hp hn.isName.isNameText
  refine compound rfl (fun _ => hs) (settles_phrase ?_ hs)
  rw [hd]
  exact h.apart.opens_append _

theorem name {initial : LetterCase} {name : String} (h : letters.IsName initial name) (hne : name ≠ "as")
    (hd : ∀ placement, p.flat placement = name.toList) (hc : p.isCons = false) (hp : ofName letters name = p) :
    p.ReadsBack letters := by
  refine atom hc (by rw [hd, hd]) ?_ ?_
  · rw [hd]
    exact apart_name h hne
  · rw [hd, ← hp]
    exact settles_of_succ (.of_forall fun _ => takes_name h)

theorem ne_as {name : String} (h : letters.IsName .upper name) : name ≠ "as" := by
  rintro rfl
  have hi : letters.caseOf 'a' = some .upper := h.initial
  rw [letters.ascii 'a' (by decide)] at hi
  contradiction

theorem isName_bool (b : Bool) : letters.IsName .upper (Literal.bool b).spelling := by
  cases b with
  | true => exact ⟨letters.ascii 'T' (by decide), by decide⟩
  | false => exact ⟨letters.ascii 'F' (by decide), by decide⟩

theorem constant {name : RawName} (hn : letters.IsName .upper name.text) (ht : name.text ≠ "True")
    (hf : name.text ≠ "False") : (Pattern.data name []).ReadsBack letters := by
  refine .name hn (ne_as hn) (flat_constant hn) (isCons_data hn []) ?_
  rw [ofName, if_neg ht, if_neg hf, hn.initial, if_neg (by decide)]

theorem data {name : RawName} (hn : letters.IsName .upper name.text) (ht : name.text ≠ "True")
    (hf : name.text ≠ "False") (h : ∀ p ∈ args, p.ReadsBack letters) :
    (Pattern.data name args).ReadsBack letters := by
  have hconstant := constant hn ht hf
  by_cases hne : args = []
  · rwa [hne]
  · have hhead := hconstant.operand
    rw [flat_constant hn] at hhead
    have hs : Settles (PatternReader.sentence letters) sentenceEnds ((Pattern.data name args).flat .whole)
        (Pattern.data name args) := by
      rw [flat_data hn]
      refine settles_of_succ ?_
      filter_upwards [hhead, Settles.forall_mem fun p hp => (h p hp).operand,
        eventually_gt_atTop args.length] with depth hname hargs hd
      exact takes_data hname hargs (fun p hp => (h p hp).apart) hd
    refine compound (flat_data_operand hn hne) (fun _ => hs) (settles_phrase ?_ hs)
    rw [flat_data hn]
    exact (apart_name hn (ne_as hn)).opens_append _

theorem tuple (hlen : 2 ≤ args.length) (h : ∀ p ∈ args, p.ReadsBack letters) :
    (PatternReader.tuple args).ReadsBack letters := by
  have hd : ∀ placement, (PatternReader.tuple args).flat placement = _ :=
    fun placement => flat_tuple placement args
  have hcons : (PatternReader.tuple args).isCons = false := by
    rw [PatternReader.tuple, isCons, bare_raw, Sugar.of_tuple]
    rfl
  refine atom hcons (by rw [hd, hd]) ?_ ?_
  · rw [hd]
    exact apart_cons rfl (by decide) _
  · rw [hd]
    refine settles_of_succ ?_
    filter_upwards [Settles.forall_mem fun p hp => (h p hp).phrase, eventually_ge_atTop args.length]
      with depth hargs hd
    exact takes_tuple hargs hlen hd

theorem record {fields : List String} (h : ∀ field ∈ fields, IsVariable letters field) :
    (Pattern.record fields : Pattern RawName).ReadsBack letters := by
  have hd := fun placement => flat_record placement fields
  refine atom rfl (by rw [hd, hd]) ?_ ?_
  · rw [hd]
    exact apart_cons rfl (by decide) _
  · rw [hd]
    refine settles_of_succ ((eventually_ge_atTop fields.length).mono fun depth hb => ?_)
    exact takes_record (fun field hf => (h field hf).isName.isNameText) hb

theorem var {name : String} (h : IsVariable letters name) :
    (Pattern.var name : Pattern RawName).ReadsBack letters := by
  have hlower : ∀ {word}, letters.IsName .upper word → name ≠ word := by
    rintro word hw rfl
    have hi := h.isName.initial.symm.trans hw.initial
    contradiction
  refine .name h.isName h.ne_as (fun _ => flat_bareDoc h) rfl ?_
  have ht : name ≠ "True" := hlower (isName_bool true)
  have hf : name ≠ "False" := hlower (isName_bool false)
  rw [ofName, if_neg ht, if_neg hf, h.isName.initial, if_pos rfl]

theorem nat (n : Nat) : (Pattern.lit (.int n) : Pattern RawName).ReadsBack letters := by
  have hd := fun placement => flat_nat placement n
  obtain ⟨c, cs, hc, hdigit⟩ := repr_eq_cons n
  have hne : ∀ d : Char, d.isDigit = false → c ≠ d := by
    rintro d hd rfl
    simp [hdigit] at hd
  refine atom rfl (by rw [hd, hd]) ?_ ?_
  · rw [hd, hc]
    exact apart_cons (by simp [isOpening, hne '-' rfl, hne ':' rfl]) (hne 'a' rfl) _
  · rw [hd]
    exact settles_of_succ (.of_forall fun _ => takes_numeral n)

theorem negative (n : Nat) : (Pattern.lit (.int (.negSucc n)) : Pattern RawName).ReadsBack letters := by
  refine compound (flat_negative_operand n) nofun (.of_forall fun _ => ?_)
  rw [flat_negative]
  exact takes_negative _ (n + 1)

theorem nil : (Pattern.data ⟨Reserved.nil⟩ []).ReadsBack letters := by
  refine atom rfl rfl (apart_cons rfl (by decide) _) (settles_of_succ (.of_forall fun depth rest _ => ?_))
  change PatternReader.operand letters (depth + 1) ('[' :: ']' :: rest) = _
  rw [PatternReader.operand]

theorem any : (Pattern.any : Pattern RawName).ReadsBack letters := by
  refine atom rfl rfl (apart_cons rfl (by decide) _) (settles_of_succ (.of_forall fun depth rest _ => ?_))
  change PatternReader.operand letters (depth + 1) ('_' :: rest) = _
  rw [PatternReader.operand]

theorem text (s : String) : (Pattern.lit (.text s) : Pattern RawName).ReadsBack letters :=
  atom rfl rfl (apart_quoted rfl (by decide) s) (settles_of_succ (.of_forall fun _ => takes_text s))

theorem char (c : Char) : (Pattern.lit (.char c) : Pattern RawName).ReadsBack letters :=
  atom rfl rfl (apart_quoted rfl (by decide) (String.singleton c))
    (settles_of_succ (.of_forall fun _ => takes_char c))

theorem bool (b : Bool) : (Pattern.lit (.bool b) : Pattern RawName).ReadsBack letters := by
  cases b with
  | true => exact name (isName_bool true) (by decide) (fun _ => rfl) rfl rfl
  | false => exact name (isName_bool false) (by decide) (fun _ => rfl) rfl rfl

end ReadsBack

theorem Plain.readsBack {p : Pattern RawName} (h : p.Plain letters) : p.ReadsBack letters := by
  induction h with
  | data hn ht hf _ args => exact .data hn ht hf args
  | cons _ _ head tail => exact head.cons tail
  | nil => exact .nil
  | tuple hlen _ args => exact .tuple hlen args
  | record h => exact .record h
  | named h _ inner => exact inner.named h
  | var h => exact .var h
  | any => exact .any
  | int n =>
    cases n with
    | ofNat n => exact .nat n
    | negSucc n => exact .negative n
  | char c => exact .char c
  | text s => exact .text s
  | bool b => exact .bool b

/-- Patterns that print alike, with or without parentheses around compound ones, are the same. -/
theorem pattern_eq_of_text_eq (config : Config) (parens : Bool) {p q : Pattern RawName}
    (h : p.Plain letters) (h' : q.Plain letters) {canvas : Canvas}
    (same : (draw config (.ofParens parens) p canvas).text =
      (draw config (.ofParens parens) q canvas).text) : p = q := by
  have hflat : p.flat (.ofParens parens) = q.flat (.ofParens parens) :=
    Doc.flat_eq_of_text_eq (p.doc_onOneLine _) (q.doc_onOneLine _) same
  cases parens with
  | false => exact h.readsBack.phrase.unique h'.readsBack.phrase hflat rfl
  | true => exact h.readsBack.operand.unique h'.readsBack.operand hflat rfl

theorem pattern_eq_of_text_eq_nested :
    let head : Pattern RawName := named "x" (data ⟨"Just"⟩ [lit (.int (-1))])
    let empty : Pattern RawName := data ⟨Reserved.nil⟩ []
    let p : Pattern RawName := data ⟨Reserved.cons⟩ [head, data ⟨Reserved.cons⟩ [any, empty]]
    let q : Pattern RawName := consAll [(⟨Reserved.cons⟩, head), (⟨Reserved.cons⟩, any)] empty
    let text (p : Pattern RawName) : String := (draw .standard (.ofParens true) p .empty).text
    p.Plain default ∧ q.Plain default ∧ text p = "(((Just (-1)) as x) :: _ :: [])" ∧ text p = text q ∧
      p = q := by
  intro head empty p q text
  have hx : IsVariable default "x" := ⟨⟨by decide, by decide⟩, by decide⟩
  have hjust : (data ⟨"Just"⟩ [lit (.int (-1))] : Pattern RawName).Plain default :=
    .data ⟨by decide, by decide⟩ (by decide) (by decide) (List.forall_mem_singleton.2 (.int _))
  have hp : p.Plain default := .cons (.named hx hjust) (.cons .any .nil)
  have shown : text p = "(((Just (-1)) as x) :: _ :: [])" := by decide +kernel
  have same : text p = text q := rfl
  exact ⟨hp, hp, shown, same, pattern_eq_of_text_eq .standard true hp hp same⟩

end PhaseTree.Pattern
