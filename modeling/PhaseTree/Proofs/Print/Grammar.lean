import PhaseTree.Proofs.Print.Reader

set_option autoImplicit false

namespace PhaseTree.Reader

open Lexeme

variable {D T : Type}

structure IsOperand (cs : List Char) (e : Tree D T) : Prop where
  opens : Opens cs
  reads : ∀ rest x, Boundary Char.isAlphanum rest → Reads (·.selectors e rest) x →
    Reads (·.operand (cs ++ rest)) x

/-- An operand or a chain of applications, which further arguments may follow. -/
structure IsChain (cs : List Char) (e : Tree D T) : Prop where
  opens : Opens cs
  reads : ∀ rest x, operandEnds rest = true → Reads (·.tail e rest) x →
    Reads (·.sentence (cs ++ rest)) x

structure IsSentence (cs : List Char) (e : Tree D T) : Prop where
  opens : Opens cs
  reads : ∀ rest, phraseEnds rest = true → Reads (·.sentence (cs ++ rest)) (e, rest)

structure IsParams (cs : List Char) (e : Tree D T) : Prop where
  opens : Opens cs
  reads : ∀ rest, phraseEnds rest = true → Reads (·.params (cs ++ rest)) (e, rest)

structure IsPhrase (cs : List Char) (e : Tree D T) : Prop where
  starts : Starts cs
  reads : ∀ rest, phraseEnds rest = true → Reads (·.phrase (cs ++ rest)) (e, rest)

structure IsItems (cs : List Char) (es : List (Tree D T)) : Prop where
  starts : Starts cs
  reads : ∀ rest, phraseEnds rest = true → rest.head? ≠ some ',' →
    Reads (·.items (cs ++ rest)) (es, rest)

structure IsFields (cs : List Char) (fs : List (String × Tree D T)) : Prop where
  opens : Opens cs
  reads : ∀ rest, phraseEnds rest = true → rest.head? ≠ some ',' →
    Reads (·.fields (cs ++ rest)) (fs, rest)

variable {cs ds : List Char} {e f : Tree D T}

theorem IsOperand.reads_end (h : IsOperand cs e) {rest : List Char} (hr : operandEnds rest = true) :
    Reads (·.operand (cs ++ rest)) (e, rest) :=
  h.reads rest _ (boundary_of_operandEnds hr) (.of_step fun _ => Readers.readSelectors_eq hr e)

theorem IsOperand.isChain (h : IsOperand cs e) : IsChain cs e where
  opens := h.opens
  reads rest x hr ht := by
    refine (h.reads_end hr).step₂ ht fun r hx hx' => ?_
    change r.readSentence (cs ++ rest) = some x
    rw [Readers.readSentence, hx]
    exact hx'

theorem IsChain.isSentence (h : IsChain cs e) : IsSentence cs e where
  opens := h.opens
  reads rest hr :=
    h.reads rest _ (operandEnds_of_phraseEnds hr) (.of_step fun _ => Readers.readTail_eq hr e)

theorem IsSentence.isPhrase (h : IsSentence cs e) : IsPhrase cs e where
  starts := h.opens.starts
  reads rest hr := (h.reads rest hr).step fun _ hx =>
    (Readers.readPhrase_of_opens (h.opens.append rest)).trans hx

theorem IsOperand.isPhrase (h : IsOperand cs e) : IsPhrase cs e := h.isChain.isSentence.isPhrase

/-- An operand is read as a primary form and then for the fields selected from it. -/
theorem isOperand_of_primary (ho : Opens cs)
    (h : ∀ rest, Boundary Char.isAlphanum rest → Reads (·.primary (cs ++ rest)) (e, rest)) :
    IsOperand cs e where
  opens := ho
  reads rest x hr hs := by
    refine (h rest hr).step₂ hs fun r hx hx' => ?_
    change r.readOperand (cs ++ rest) = some x
    rw [Readers.readOperand, hx]
    exact hx'

theorem IsPhrase.items (h : IsPhrase cs e) : IsItems cs [e] where
  starts := h.starts
  reads rest hr hc := by
    refine (h.reads rest hr).step fun r hx => ?_
    change r.readItems (cs ++ rest) = _
    rw [Readers.readItems, hx]
    simp only [Option.bind_eq_bind, Option.bind_some]
    split
    · contradiction
    · rfl

theorem IsPhrase.parens (h : IsPhrase cs e) : IsOperand ('(' :: (cs ++ [')'])) e := by
  refine isOperand_of_primary ⟨_, _, rfl, rfl⟩ fun rest _ => ?_
  refine (h.items.reads (')' :: rest) rfl (by simp)).step fun r hi => ?_
  change r.readPrimary ('(' :: (cs ++ [')'] ++ rest)) = _
  rw [List.append_assoc, List.singleton_append, Readers.readPrimary, hi]
  rfl

theorem IsOperand.access (h : IsOperand cs e) {field : String} (hf : isIdentifier field = true) :
    IsOperand (cs ++ '.' :: field.toList) (.access () e field) where
  opens := h.opens.append _
  reads rest x hr hs := by
    rw [List.append_assoc, List.cons_append]
    refine h.reads _ x ((boundary_cons _ _ _).2 rfl) (hs.step fun r hx => ?_)
    change r.readSelectors e ('.' :: (field.toList ++ rest)) = _
    rw [Readers.readSelectors, word_append hf hr]
    exact hx

theorem IsChain.app (h : IsChain cs e) (h' : IsOperand ds f) :
    IsChain (cs ++ ' ' :: ds) (.app () e f) where
  opens := h.opens.append _
  reads rest x hr ht := by
    rw [List.append_assoc, List.cons_append]
    refine h.reads _ x rfl ((h'.reads_end hr).step₂ ht fun r hx hx' => ?_)
    exact (Readers.readTail_argument (infixName_of_opens (h'.opens.append rest)) hx).trans hx'

theorem IsOperand.binop (h : IsOperand cs e) {shown : List Char} {op : String}
    (hs : ∀ rest, infixName (shown ++ ' ' :: rest) = some (op, rest)) (ho : op ≠ Reserved.cons)
    (h' : IsOperand ds f) :
    IsSentence (cs ++ ' ' :: (shown ++ ' ' :: ds)) (.binop () ⟨op⟩ e f) where
  opens := h.opens.append _
  reads rest hr := by
    have hx := h'.reads_end (operandEnds_of_phraseEnds hr)
    rw [List.append_assoc, List.cons_append, List.append_assoc, List.cons_append]
    exact h.isChain.reads _ _ rfl (hx.step fun r hx => Readers.readTail_infix (hs _) ho hx)

theorem IsOperand.cons (h : IsOperand cs e) (h' : IsSentence ds f) :
    IsSentence (cs ++ (" :: ".toList ++ ds)) (.data () Reserved.cons [e, f]) where
  opens := h.opens.append _
  reads rest hr := by
    have hs : infixName (":: ".toList ++ (ds ++ rest)) = some (Reserved.cons, ds ++ rest) :=
      infixName_symbol Reserved.isOperator_cons _
    rw [List.append_assoc, List.append_assoc]
    exact h.isChain.reads _ _ rfl ((h'.reads rest hr).step fun r hx => Readers.readTail_cons hs hx)

theorem IsOperand.negation (h : IsOperand cs e) :
    IsPhrase ('-' :: cs) (.binop () ⟨"-"⟩ (.lit () (.int 0)) e) where
  starts := ⟨_, _, rfl, by decide⟩
  reads rest hr := by
    refine (h.reads_end (operandEnds_of_phraseEnds hr)).step fun r hx => ?_
    change r.readPhrase ('-' :: (cs ++ rest)) = _
    rw [Readers.readPhrase, hx]
    rfl

theorem IsParams.isPhrase (h : IsParams cs e) : IsPhrase ('\\' :: cs) e where
  starts := ⟨_, _, rfl, by decide⟩
  reads rest hr := (h.reads rest hr).step fun _ hx => hx

theorem opens_identifier {name : String} (h : isIdentifier name = true) : Opens name.toList := by
  obtain ⟨c, cs, hn, hc, -⟩ := exists_of_isIdentifier h
  exact ⟨c, cs, hn, by simp [isOpening, hc]⟩

theorem IsPhrase.lambda (h : IsPhrase cs e) {name : String} (hn : isIdentifier name = true) :
    IsParams (name.toList ++ (" -> ".toList ++ cs)) (.lambda () (.var name) e) where
  opens := (opens_identifier hn).append _
  reads rest hr := by
    have hw : word (name.toList ++ (" -> ".toList ++ (cs ++ rest))) =
        some (name, " -> ".toList ++ (cs ++ rest)) :=
      word_append hn ((boundary_cons _ _ _).2 rfl)
    rw [List.append_assoc, List.append_assoc]
    refine (h.reads rest hr).step fun r hx => ?_
    change r.readParams _ = _
    rw [Readers.readParams, hw]
    change (r.phrase (cs ++ rest) >>= _) = _
    rw [hx]
    rfl

theorem IsParams.lambda (h : IsParams cs e) {name : String} (hn : isIdentifier name = true) :
    IsParams (name.toList ++ ' ' :: cs) (.lambda () (.var name) e) where
  opens := (opens_identifier hn).append _
  reads rest hr := by
    have hw : word (name.toList ++ ' ' :: (cs ++ rest)) = some (name, ' ' :: (cs ++ rest)) :=
      word_append hn ((boundary_cons _ _ _).2 rfl)
    rw [List.append_assoc, List.cons_append]
    refine (h.reads rest hr).step fun r hx => ?_
    change r.readParams _ = _
    rw [Readers.readParams, hw]
    simp only [Option.bind_eq_bind, Option.bind_some]
    split
    -- A parameter does not start like the rest of an arrow.
    · rename_i hc
      obtain ⟨c, cs, rfl, ho⟩ := h.opens
      have hd : c = '-' := (List.cons.inj (List.cons.inj hc).2).1
      subst hd
      contradiction
    · rename_i hc
      cases hc
      rw [hx]
      rfl
    · rename_i hc
      exact absurd rfl (hc _)

theorem isOperand_of_leaf {c : Char} (ho : isOpening c = true)
    (hc : ['(', '[', '\x7b'].contains c = false)
    (h : ∀ rest, Boundary Char.isAlphanum rest → leaf (c :: (cs ++ rest)) = some (e, rest)) :
    IsOperand (c :: cs) e :=
  isOperand_of_primary ⟨c, cs, rfl, ho⟩ fun rest hr =>
    .of_step fun _ => (Readers.readPrimary_leaf hc (cs ++ rest)).trans (h rest hr)

theorem isOperand_text (s : String) :
    IsOperand (D := D) (T := T) (Quoted.text '"' s).toList (.lit () (.text s)) := by
  rw [Quoted.toList_text]
  refine isOperand_of_leaf rfl rfl fun rest _ => ?_
  rw [List.append_assoc, leaf, List.singleton_append, Quoted.decode_encode (.inl rfl)]
  simp

theorem isOperand_char (c : Char) :
    IsOperand (D := D) (T := T) (Quoted.text '\'' (String.singleton c)).toList (.lit () (.char c)) := by
  rw [Quoted.toList_text]
  refine isOperand_of_leaf rfl rfl fun rest _ => ?_
  rw [List.append_assoc, leaf, List.singleton_append, Quoted.decode_encode (.inr rfl)]
  simp

theorem isOperand_of_scalar {c : Char} (hc : (c.isDigit || isInitial c) = true)
    (h : ∀ rest, Boundary Char.isAlphanum rest → scalar (c :: (cs ++ rest)) = some (e, rest)) :
    IsOperand (c :: cs) e := by
  have apart : delimiters.all (fun c => !(c.isDigit || isInitial c)) = true := by decide
  have hd : c ∉ delimiters := by
    intro hm
    have := List.all_eq_true.1 apart c hm
    simp [hc] at this
  simp only [delimiters, List.mem_cons, List.not_mem_nil, or_false, not_or] at hd
  refine isOperand_of_leaf ?_ ?_ fun rest hr => ?_
  · simp [isOpening, hc]
  · simp [hd]
  · rw [leaf_eq_scalar _, h rest hr]
    simp [hd]

theorem isDigit_of_isInitial {c : Char} (h : isInitial c = true) : c.isDigit = false := by
  have low : 97 ≤ c.toNat := by
    rcases (Bool.or_eq_true _ _).mp h with hl | hl
    · exact UInt32.le_iff_toNat_le.mp (of_decide_eq_true (Bool.and_eq_true_iff.1 hl).1)
    · have := of_decide_eq_true hl
      omega
  rw [Bool.eq_false_iff]
  intro hd
  have high : c.toNat ≤ 57 :=
    UInt32.le_iff_toNat_le.mp (of_decide_eq_true (Bool.and_eq_true_iff.1 hd).2)
  omega

theorem isOperand_int (n : Nat) :
    IsOperand (D := D) (T := T) n.repr.toList (.lit () (.int n)) := by
  have hd : ∀ c ∈ n.repr.toList, c.isDigit = true := by
    rw [Nat.toList_repr]
    exact fun c hc => Nat.isDigit_of_mem_toDigits (by decide) (by decide) hc
  have hn : ∀ rest, Boundary Char.isAlphanum rest →
      scalar (D := D) (T := T) (n.repr.toList ++ rest) = some (.lit () (.int n), rest) := by
    intro rest hr
    have hr' : Boundary Char.isDigit rest := fun c hc => (Bool.or_eq_false_iff.1 (hr c hc)).2
    rw [scalar, numeral_append n hr']
  cases hs : n.repr.toList with
  | nil => simp [Nat.toList_repr] at hs
  | cons c cs =>
    rw [hs] at hd hn
    exact isOperand_of_scalar (by simp [hd]) hn

theorem isOperand_var {name : String} (h : isIdentifier name = true) :
    IsOperand (D := D) (T := T) name.toList (.var () ⟨name⟩) := by
  obtain ⟨c, cs, hs, hc, -⟩ := exists_of_isIdentifier h
  rw [hs]
  refine isOperand_of_scalar (by simp [hc]) fun rest hr => ?_
  have hn : numeral (c :: (cs ++ rest)) = none :=
    congrArg _ (run_eq_none ((boundary_cons _ _ _).2 (isDigit_of_isInitial hc)))
  have hw : word (c :: (cs ++ rest)) = some (name, rest) := by
    rw [← List.cons_append, ← hs, word_append h hr]
  simp only [scalar, hn, hw, Option.map_some]

theorem IsItems.cons {es : List (Tree D T)} (h : IsPhrase cs e) (h' : IsItems ds es) :
    IsItems (cs ++ (", ".toList ++ ds)) (e :: es) where
  starts := h.starts.append _
  reads rest hr hc := by
    rw [List.append_assoc, List.append_assoc]
    refine (h.reads (", ".toList ++ (ds ++ rest)) rfl).step₂ (h'.reads rest hr hc) fun r hx hx' => ?_
    change r.readItems _ = _
    rw [Readers.readItems, hx]
    change (r.items (ds ++ rest) >>= _) = _
    rw [hx']
    rfl

theorem isOperand_nil : IsOperand (D := D) (T := T) ['[', ']'] (.list () []) :=
  isOperand_of_primary ⟨_, _, rfl, rfl⟩ fun _ _ => .of_step fun _ => rfl

theorem IsItems.list {es : List (Tree D T)} (h : IsItems cs es) :
    IsOperand ('[' :: (cs ++ [']'])) (.list () es) := by
  refine isOperand_of_primary ⟨_, _, rfl, rfl⟩ fun rest _ => ?_
  refine (h.reads (']' :: rest) rfl (by simp)).step fun r hi => ?_
  change r.readPrimary ('[' :: (cs ++ [']'] ++ rest)) = _
  rw [List.append_assoc, List.singleton_append, Readers.readPrimary_bracket (h.starts.append _), hi]
  rfl

theorem IsOperand.range (h : IsOperand cs e) (h' : IsOperand ds f) :
    IsOperand ('[' :: (cs ++ ("..".toList ++ ds) ++ [']'])) (.range () e f) := by
  refine isOperand_of_primary ⟨_, _, rfl, rfl⟩ fun rest _ => ?_
  have hi := h.isPhrase.items.reads ("..".toList ++ (ds ++ ']' :: rest)) rfl (by simp)
  have hx : Reads (·.operand (ds ++ ']' :: rest)) (f, ']' :: rest) := h'.reads_end rfl
  refine hi.step₂ hx fun r hx hx' => ?_
  change r.readPrimary ('[' :: (cs ++ ("..".toList ++ ds) ++ [']'] ++ rest)) = _
  rw [List.append_assoc, List.append_assoc, List.append_assoc, List.singleton_append,
    Readers.readPrimary_bracket (h.isPhrase.starts.append _), hx]
  change (r.operand (ds ++ ']' :: rest) >>= _) = _
  rw [hx']
  rfl

theorem IsItems.tuple {es : List (Tree D T)} (h : IsItems cs es) (hl : 2 ≤ es.length) :
    IsOperand ('(' :: (cs ++ [')'])) (.tuple () es) := by
  refine isOperand_of_primary ⟨_, _, rfl, rfl⟩ fun rest _ => ?_
  refine (h.reads (')' :: rest) rfl (by simp)).step fun r hi => ?_
  obtain ⟨e, f, es, rfl⟩ : ∃ e f es', es = e :: f :: es' := by
    match es, hl with
    | e :: f :: es', _ => exact ⟨e, f, es', rfl⟩
  change r.readPrimary ('(' :: (cs ++ [')'] ++ rest)) = _
  rw [List.append_assoc, List.singleton_append, Readers.readPrimary, hi]
  rfl

theorem IsFields.single (h : IsPhrase cs e) {field : String} (hf : isIdentifier field = true) :
    IsFields (field.toList ++ (" = ".toList ++ cs)) [(field, e)] where
  opens := (opens_identifier hf).append _
  reads rest hr hc := by
    have hw : word (field.toList ++ (" = ".toList ++ (cs ++ rest))) =
        some (field, " = ".toList ++ (cs ++ rest)) :=
      word_append hf ((boundary_cons _ _ _).2 rfl)
    rw [List.append_assoc, List.append_assoc]
    refine (h.reads rest hr).step fun r hx => ?_
    change r.readFields _ = _
    rw [Readers.readFields, hw]
    change (r.phrase (cs ++ rest) >>= _) = _
    rw [hx]
    simp only [Option.bind_eq_bind, Option.bind_some]
    split
    · contradiction
    · rfl

theorem IsFields.cons (h : IsPhrase cs e) {field : String} (hf : isIdentifier field = true)
    {fs : List (String × Tree D T)} (h' : IsFields ds fs) :
    IsFields (field.toList ++ (" = ".toList ++ cs) ++ (", ".toList ++ ds)) ((field, e) :: fs) where
  opens := ((opens_identifier hf).append _).append _
  reads rest hr hc := by
    have hw : word (field.toList ++ (" = ".toList ++ (cs ++ (", ".toList ++ (ds ++ rest))))) =
        some (field, " = ".toList ++ (cs ++ (", ".toList ++ (ds ++ rest)))) :=
      word_append hf ((boundary_cons _ _ _).2 rfl)
    rw [List.append_assoc, List.append_assoc, List.append_assoc, List.append_assoc]
    refine (h.reads (", ".toList ++ (ds ++ rest)) rfl).step₂ (h'.reads rest hr hc) fun r hx hx' => ?_
    change r.readFields _ = _
    rw [Readers.readFields, hw]
    change (r.phrase (cs ++ (", ".toList ++ (ds ++ rest))) >>= _) = _
    rw [hx]
    change (r.fields (ds ++ rest) >>= _) = _
    rw [hx']
    rfl

theorem isOperand_emptyRecord : IsOperand (D := D) (T := T) ['\x7b', '\x7d'] (.record () []) :=
  isOperand_of_primary ⟨_, _, rfl, rfl⟩ fun _ _ => .of_step fun _ => rfl

theorem IsFields.record {fs : List (String × Tree D T)} (h : IsFields cs fs) :
    IsOperand ('\x7b' :: (cs ++ ['\x7d'])) (.record () fs) := by
  refine isOperand_of_primary ⟨_, _, rfl, rfl⟩ fun rest _ => ?_
  refine (h.reads ('\x7d' :: rest) rfl (by simp)).step fun r hi => ?_
  change r.readPrimary ('\x7b' :: (cs ++ ['\x7d'] ++ rest)) = _
  rw [List.append_assoc, List.singleton_append, Readers.readPrimary_brace (h.opens.append _), hi]
  rfl

end PhaseTree.Reader
