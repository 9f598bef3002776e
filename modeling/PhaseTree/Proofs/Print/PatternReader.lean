import PhaseTree.Proofs.Print.Alphabet
import PhaseTree.Proofs.Print.Descent
import PhaseTree.Tree.Pattern

set_option autoImplicit false

namespace PhaseTree.PatternReader

open Descent Lexeme

abbrev Tree := Pattern RawName

def isOpening (c : Char) : Bool := c != '-' && c != ':'

def tuple (ps : List Tree) : Tree := .data ⟨Reserved.tupleName ps.length⟩ ps

def textLiteral : Read Tree := fun cs => do
  let (text, cs) ← Quoted.decode '"' cs
  return (.lit (.text (String.ofList text)), cs)

def charLiteral : Read Tree := fun cs => do
  let (text, cs) ← Quoted.decode '\'' cs
  match text with
  | [c] => return (.lit (.char c), cs)
  | _ => none

variable (letters : Alphabet)

def ofName (name : String) : Tree :=
  if name = "True" then .lit (.bool true)
  else if name = "False" then .lit (.bool false)
  else if letters.initialCase name = some .lower then .var name
  else .data ⟨name⟩ []

def scalar : Read Tree := fun cs =>
  match numeral cs with
  | some (n, cs) => some (.lit (.int n), cs)
  | none => (nameText cs).map fun (name, cs) => (ofName letters name, cs)

def arguments (operand : Read Tree) (bound : Nat) : Tree → Read Tree
  | .data name [], cs => do
    let (args, cs) ← spaced isOpening operand bound cs
    return (.data name args, cs)
  | p, cs => some (p, cs)

def tail (sentence operand : Read Tree) (bound : Nat) (p : Tree) : Read Tree := fun cs =>
  match " :: ".toList.isPrefixOf? cs with
  | some cs => do
    let (rest, cs) ← sentence cs
    return (.data ⟨Reserved.cons⟩ [p, rest], cs)
  | none =>
    match " as ".toList.isPrefixOf? cs with
    | some cs => do
      let (name, cs) ← nameText cs
      return (.named name p, cs)
    -- No argument is called `as`, so an alias is not taken for one.
    | none => arguments operand bound p cs

def whole (sentence : Read Tree) : Read Tree
  | '-' :: cs => do
    let (n, cs) ← numeral cs
    return (.lit (.int (-n)), cs)
  | cs => sentence cs

mutual
def sentence : Nat → Read Tree
  | 0, _ => none
  | depth + 1, cs => do
    let (p, cs) ← operand depth cs
    tail (sentence depth) (operand depth) depth p cs
def operand : Nat → Read Tree
  | 0, _ => none
  | depth + 1, cs =>
    match cs with
    | '(' :: cs => group tuple (whole (sentence depth)) depth cs
    | '[' :: ']' :: cs => some (.data ⟨Reserved.nil⟩ [], cs)
    | '\x7b' :: '\x7d' :: cs => some (.record [], cs)
    | '\x7b' :: cs => do
      let (fields, cs) ← enclosed '\x7d' nameText depth cs
      return (.record fields, cs)
    | '_' :: cs => some (.any, cs)
    | '"' :: cs => textLiteral cs
    | '\'' :: cs => charLiteral cs
    | cs => scalar letters cs
end

abbrev phrase (depth : Nat) : Read Tree := whole (sentence letters depth)

def sentenceEnds (cs : List Char) : Bool := nameEnds cs && cs.head? != some ' '

variable {letters : Alphabet} {body body' : List Char} {p q : Tree} {ps : List Tree} {depth bound : Nat}

theorem head_of_sentenceEnds {cs : List Char} (h : sentenceEnds cs = true) : cs.head? ≠ some ' ' := by
  simpa using (Bool.and_eq_true_iff.1 h).2

theorem arguments_eq {read : Read Tree} {cs : List Char} (h : cs.head? ≠ some ' ')
    (hb : 0 < bound) (p : Tree) : arguments read bound p cs = some (p, cs) := by
  unfold arguments
  split
  · rw [spaced_eq_nil (not_continues_of_head h) hb]
    rfl
  · rfl

theorem tail_eq_arguments {read read' : Read Tree} {cs : List Char}
    (hcons : " :: ".toList.isPrefixOf? cs = none) (has : " as ".toList.isPrefixOf? cs = none) (p : Tree) :
    tail read read' bound p cs = arguments read' bound p cs := by
  rw [tail, hcons, has]

theorem takes_alone (h : Takes (operand letters depth) nameEnds body p) (hd : 0 < depth) :
    Takes (sentence letters (depth + 1)) sentenceEnds body p := by
  intro rest hr
  have hc := head_of_sentenceEnds hr
  rw [sentence, h rest (Bool.and_eq_true_iff.1 hr).1]
  simp only [Option.bind_eq_bind, Option.bind_some]
  rw [tail_eq_arguments (isPrefixOf?_of_head hc _) (isPrefixOf?_of_head hc _), arguments_eq hc hd]

theorem takes_cons (h : Takes (operand letters depth) nameEnds body p)
    (h' : Takes (sentence letters depth) sentenceEnds body' q) :
    Takes (sentence letters (depth + 1)) sentenceEnds (body ++ (" :: ".toList ++ body'))
      (.data ⟨Reserved.cons⟩ [p, q]) := by
  intro rest hr
  rw [List.append_assoc, List.append_assoc, sentence, h _ rfl]
  simp only [Option.bind_eq_bind, Option.bind_some, tail, List.isPrefixOf?_eq_some_iff_append_eq.2 rfl,
    h' rest hr]
  rfl

theorem takes_named {name : String} (h : Takes (operand letters depth) nameEnds body p)
    (hn : IsNameText name) : Takes (sentence letters (depth + 1)) sentenceEnds
      (body ++ (" as ".toList ++ name.toList)) (.named name p) := by
  intro rest hr
  have hname := hn.nameText_append (Bool.and_eq_true_iff.1 hr).1
  have hcons : " :: ".toList.isPrefixOf? (" as ".toList ++ (name.toList ++ rest)) = none := rfl
  rw [List.append_assoc, List.append_assoc, sentence, h _ rfl]
  simp only [Option.bind_eq_bind, Option.bind_some, tail]
  rw [hcons, List.isPrefixOf?_eq_some_iff_append_eq.2 rfl]
  simp only [hname]
  rfl

/-- The text of an operand, which does not look like what may stand in front of one or behind it. -/
structure Apart (body : List Char) : Prop where
  opens : body.head?.any isOpening = true
  unnamed : ∀ rest, nameEnds rest = true → (!"as ".toList.isPrefixOf (body ++ rest)) = true

theorem Apart.opens_append (h : Apart body) (more : List Char) :
    (body ++ more).head?.any isOpening = true := by
  have ho := h.opens
  cases body with
  | nil => contradiction
  | cons c body => exact ho

/-- Only names can start like an alias. -/
theorem apart_cons {c : Char} (hc : isOpening c = true) (ha : c ≠ 'a') (body : List Char) :
    Apart (c :: body) where
  opens := hc
  unnamed rest _ := by
    have hne : ('a' == c) = false := by simpa using ha.symm
    have hs : "as ".toList = 'a' :: "s ".toList := by decide
    rw [hs, List.cons_append, List.isPrefixOf, hne]
    rfl

theorem apart_quoted {quote : Char} (hq : isOpening quote = true) (ha : quote ≠ 'a') (s : String) :
    Apart (Quoted.text quote s).toList := by
  rw [Quoted.toList_text]
  exact apart_cons hq ha _

theorem apart_name {initial : LetterCase} {name : String} (h : letters.IsName initial name)
    (hne : name ≠ "as") : Apart name.toList where
  opens := by
    obtain ⟨c, cs, hc, hcase⟩ := h.exists_initial
    have hp : ∀ d ∈ punctuation, c ≠ d := by
      rintro d hd rfl
      simp [Alphabet.caseOf_of_mem_punctuation hd] at hcase
    simp [hc, isOpening, hp '-' (by decide), hp ':' (by decide)]
  unnamed rest hr := by
    rw [Bool.not_eq_true', ← Bool.not_eq_true]
    intro hp
    obtain ⟨more, hm⟩ := List.isPrefixOf_iff_prefix.1 hp
    have has : IsNameText "as" := ⟨by decide, by decide⟩
    have hname := h.isNameText.nameText_append hr
    have hname' : nameText ("as".toList ++ ' ' :: more) = some ("as", ' ' :: more) :=
      has.nameText_append rfl
    rw [← hm] at hname
    exact hne (congrArg Prod.fst (Option.some.inj (hname.symm.trans hname')))

theorem Apart.isPrefixOf?_cons (h : Apart body) (rest : List Char) :
    " :: ".toList.isPrefixOf? (' ' :: (body ++ rest)) = none := by
  have ho := h.opens
  cases body with
  | nil => contradiction
  | cons c body =>
    have hc : (c :: (body ++ rest)).head? ≠ some ':' := by
      rintro e
      cases e
      contradiction
    exact isPrefixOf?_of_head hc _

theorem Apart.isPrefixOf?_as (h : Apart body) {rest : List Char} (hr : nameEnds rest = true) :
    " as ".toList.isPrefixOf? (' ' :: (body ++ rest)) = none :=
  isPrefixOf?_eq_none (h.unnamed rest hr)

theorem takes_data {name : RawName} {args : Tree → List Char}
    (h : Takes (operand letters depth) nameEnds name.text.toList (.data name []))
    (hargs : ∀ p ∈ ps, Takes (operand letters depth) nameEnds (args p) p) (apart : ∀ p ∈ ps, Apart (args p))
    (hd : ps.length < depth) :
    Takes (sentence letters (depth + 1)) sentenceEnds
      (name.text.toList ++ ps.flatMap fun p => ' ' :: args p) (.data name ps) := by
  cases ps with
  | nil =>
    rw [List.flatMap_nil, List.append_nil]
    exact takes_alone h hd
  | cons p ps =>
    intro rest hr
    obtain ⟨hrest, -⟩ := Bool.and_eq_true_iff.1 hr
    have hlast : (!continues isOpening rest) = true := not_continues_of_head (head_of_sentenceEnds hr)
    have hspace : ∀ rest, nameEnds (' ' :: rest) = true := fun _ => rfl
    have hspaced := takes_spaced hspace hargs (fun p hp => (apart p hp).opens) hd rest
      (Bool.and_eq_true_iff.2 ⟨hrest, hlast⟩)
    -- What follows the name is neither the rest of a list nor an alias, so it is taken for arguments.
    obtain ⟨hp, -⟩ := List.forall_mem_cons.1 apart
    have hcons := hp.isPrefixOf?_cons ((ps.flatMap fun p => ' ' :: args p) ++ rest)
    have has := hp.isPrefixOf?_as (ends_spaced hspace args ps hrest)
    rw [List.flatMap_cons, List.cons_append, List.cons_append, List.append_assoc] at hspaced
    rw [List.flatMap_cons, List.append_assoc, List.cons_append, List.cons_append, List.append_assoc,
      sentence, h _ rfl]
    simp only [Option.bind_eq_bind, Option.bind_some]
    rw [tail_eq_arguments hcons has, arguments, hspaced]
    rfl

theorem boundary_isDigit_of_nameEnds {cs : List Char} (h : nameEnds cs = true) :
    Boundary Char.isDigit cs := by
  intro c hc
  have hp := boundary_of_nameEnds h c hc
  exact Bool.eq_false_iff.2 fun hd => by simp [isNamePart_of_isDigit hd] at hp

theorem takes_whole {read : Read Tree} (ho : body.head?.any isOpening = true)
    (h : Takes read sentenceEnds body p) : Takes (whole read) sentenceEnds body p := by
  intro rest hr
  rw [← h rest hr]
  cases body with
  | nil => contradiction
  | cons c body =>
    rw [List.cons_append, whole]
    rintro cs e
    cases e
    contradiction

theorem takes_negative (read : Read Tree) (n : Nat) :
    Takes (whole read) sentenceEnds ('-' :: n.repr.toList) (.lit (.int (-n))) := by
  intro rest hr
  obtain ⟨hrest, -⟩ := Bool.and_eq_true_iff.1 hr
  rw [List.cons_append, whole, numeral_append n (boundary_isDigit_of_nameEnds hrest)]
  rfl

theorem takes_parens (h : Takes (phrase letters depth) sentenceEnds body p) (hd : 1 ≤ depth) :
    Takes (operand letters (depth + 1)) nameEnds ('(' :: (body ++ [')'])) p := by
  intro rest _
  rw [List.cons_append, List.append_assoc, operand]
  exact group_single (fun _ => rfl) (fun _ => rfl) h hd rest

theorem takes_tuple {parts : Tree → List Char}
    (h : ∀ p ∈ ps, Takes (phrase letters depth) sentenceEnds (parts p) p) (hlen : 2 ≤ ps.length)
    (hb : ps.length ≤ depth) : Takes (operand letters (depth + 1)) nameEnds
      ('(' :: (", ".toList.intercalate (ps.map parts) ++ [')'])) (tuple ps) := by
  intro rest _
  rw [List.cons_append, List.append_assoc, operand]
  exact group_tuple (fun _ => rfl) (fun _ => rfl) h hlen hb rest

theorem takes_record {fields : List String} (h : ∀ field ∈ fields, IsNameText field)
    (hb : fields.length ≤ depth) : Takes (operand letters (depth + 1)) nameEnds
      ('\x7b' :: (", ".toList.intercalate (fields.map String.toList) ++ ['\x7d'])) (.record fields) := by
  intro rest hr
  cases fields with
  | nil =>
    change operand letters (depth + 1) ('\x7b' :: '\x7d' :: rest) = _
    rw [operand]
  | cons field fields =>
    have hname : ∀ f ∈ field :: fields, Takes nameText nameEnds f.toList f :=
      fun f hf _ hr => (h f hf).nameText_append hr
    have hnames := takes_enclosed '\x7d' (fun _ => rfl) (fun _ => rfl) hname (List.cons_ne_nil _ _) hb rest
    obtain ⟨more, hm⟩ := exists_intercalate_cons ", ".toList field.toList (fields.map String.toList)
    obtain ⟨c, cs, hc, hpart⟩ := (h field List.mem_cons_self).exists_cons
    rw [List.map_cons, hm, hc] at hnames ⊢
    rw [List.cons_append, List.cons_append] at hnames
    rw [List.cons_append, List.append_assoc, List.singleton_append, List.cons_append, List.cons_append,
      operand]
    · rw [hnames]
      rfl
    · intro cs' e
      cases e
      contradiction

theorem operand_of_isNamePart {c : Char} (h : isNamePart c = true) (cs : List Char) :
    operand letters (depth + 1) (c :: cs) = scalar letters (c :: cs) := by
  rw [operand]
  all_goals
    intro cs' e
    cases e
    contradiction

theorem takes_numeral (n : Nat) :
    Takes (operand letters (depth + 1)) nameEnds n.repr.toList (.lit (.int n)) := by
  intro rest hr
  obtain ⟨c, cs, hc, hd⟩ := repr_eq_cons n
  have hn := numeral_append n (boundary_isDigit_of_nameEnds hr)
  rw [hc, List.cons_append] at hn ⊢
  rw [operand_of_isNamePart (isNamePart_of_isDigit hd), scalar, hn]

theorem takes_name {initial : LetterCase} {name : String} (h : letters.IsName initial name) :
    Takes (operand letters (depth + 1)) nameEnds name.toList (ofName letters name) := by
  intro rest hr
  obtain ⟨c, cs, hc, hcase⟩ := h.exists_initial
  have hname := h.isNameText.nameText_append hr
  have hd : c.isDigit = false := by
    rw [← Bool.not_eq_true]
    intro hd
    simp [Alphabet.caseOf_of_isDigit hd] at hcase
  have hpart : isNamePart c = true := h.parts c (by simp [hc])
  have hnumeral : numeral (c :: (cs ++ rest)) = none :=
    congrArg _ (run_eq_none ((boundary_cons _ _ _).2 hd))
  rw [hc, List.cons_append] at hname ⊢
  rw [operand_of_isNamePart hpart, scalar, hnumeral]
  simp only [hname]
  rfl

theorem takes_text (s : String) : Takes (operand letters (depth + 1)) nameEnds
    (Quoted.text '"' s).toList (.lit (.text s)) := by
  intro rest _
  rw [Quoted.toList_text, List.cons_append, List.append_assoc, operand, textLiteral, List.singleton_append, Quoted.decode_encode (.inl rfl)]
  simp

theorem takes_char (c : Char) : Takes (operand letters (depth + 1)) nameEnds
    (Quoted.text '\'' (String.singleton c)).toList (.lit (.char c)) := by
  intro rest _
  rw [Quoted.toList_text, List.cons_append, List.append_assoc, operand, charLiteral, List.singleton_append, Quoted.decode_encode (.inr rfl)]
  simp

end PhaseTree.PatternReader
