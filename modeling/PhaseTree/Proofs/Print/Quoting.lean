import PhaseTree.Proofs.Print.Lexemes

set_option autoImplicit false

namespace PhaseTree

namespace Quoted

def read (quote : Char) : List Char → Option (List Char × List Char)
  | [] => none
  | c :: cs => if c = quote then decode quote cs else none

variable {quote : Char}

theorem read_text (hq : IsQuote quote) (s : String) (behind : List Char) :
    read quote ((text quote s).toList ++ behind) = some (s.toList, behind) := by
  rw [toList_text, List.cons_append, List.append_assoc, List.singleton_append, read, if_pos rfl,
    decode_encode hq]

theorem eq_of_text_prefix (hq : IsQuote quote) {s s' : String}
    (h : (text quote s).toList <+: (text quote s').toList) : s = s' := by
  obtain ⟨behind, he⟩ := h
  have hr := read_text hq s behind
  rw [he, ← List.append_nil (text quote s').toList, read_text hq, Option.some.injEq, Prod.mk.injEq] at hr
  exact String.toList_injective hr.1.symm

end Quoted

namespace Literal

def quoted? : Literal → Option (Char × String)
  | char c => some ('\'', String.singleton c)
  | text s => some ('"', s)
  | _ => none

variable {value value' : Literal} {quote : Char} {s : String}

theorem quoted?_cases (h : value.quoted? = some (quote, s)) :
    (∃ c, value = char c ∧ quote = '\'' ∧ s = String.singleton c) ∨ (value = text s ∧ quote = '"') := by
  cases value with
  | char c =>
    cases h
    exact .inl ⟨c, rfl, rfl, rfl⟩
  | text s =>
    cases h
    exact .inr ⟨rfl, rfl⟩
  | _ => cases h

theorem quoted?_eq_some (h : value.quoted? = some (quote, s)) :
    Quoted.IsQuote quote ∧ value.isCompound = false ∧ value.spelling = Quoted.text quote s := by
  obtain ⟨c, rfl, rfl, rfl⟩ | ⟨rfl, rfl⟩ := quoted?_cases h
  · exact ⟨.inr rfl, rfl, rfl⟩
  · exact ⟨.inl rfl, rfl, rfl⟩

theorem eq_of_quoted?_eq (h : value.quoted? = some (quote, s)) (h' : value'.quoted? = some (quote, s)) :
    value = value' := by
  obtain ⟨c, rfl, rfl, rfl⟩ | ⟨rfl, rfl⟩ := quoted?_cases h
  · obtain ⟨c', rfl, -, hc⟩ | ⟨-, hq⟩ := quoted?_cases h'
    · rw [String.singleton_inj.1 hc]
    · exact absurd hq (by decide)
  · obtain ⟨c', -, hq, -⟩ | ⟨rfl, -⟩ := quoted?_cases h'
    · exact absurd hq (by decide)
    · rfl

theorem draw_quoted (h : value.quoted? = some (quote, s)) (config : Config) (placement : Placement)
    (canvas : Canvas) :
    (draw config placement value canvas).text = canvas.text ++ Quoted.text quote s := by
  obtain ⟨-, atomic, spelled⟩ := quoted?_eq_some h
  change ((value.doc placement).draw canvas).text = _
  rw [doc, atomic, spelled]
  rfl

theorem format_quoted (h : value.quoted? = some (quote, s)) (config : Config) :
    format config value = Quoted.text quote s := by
  have hd := draw_quoted h config .whole .empty
  rwa [show Canvas.empty.text = "" from rfl, String.empty_append] at hd

/-- Quoted text holds no control character, a reader that takes it off the front of any input gives back
what was quoted, and no literal begins another one between the same quotes. -/
theorem quoted_reversible :
    (∀ quote, Quoted.IsQuote quote → ∀ s : String,
      (∀ c ∈ Quoted.controls, c ∉ (Quoted.text quote s).toList) ∧
      (∀ behind, Quoted.read quote ((Quoted.text quote s).toList ++ behind) = some (s.toList, behind)) ∧
      ∀ s', (Quoted.text quote s).toList <+: (Quoted.text quote s').toList → s = s') ∧
    (∀ (value : Literal) (quote : Char) (s : String), value.quoted? = some (quote, s) →
      ∀ config placement canvas,
        (draw config placement value canvas).text = canvas.text ++ Quoted.text quote s) ∧
    ∀ (value value' : Literal) (quote : Char) (s s' : String), value.quoted? = some (quote, s) →
      value'.quoted? = some (quote, s') →
        ∀ config, (format config value).toList <+: (format config value').toList → value = value' := by
  refine ⟨fun quote hq s => ⟨fun c hc => ?_, Quoted.read_text hq s, fun _ => Quoted.eq_of_text_prefix hq⟩,
    fun _ _ _ => draw_quoted, ?_⟩
  · have other : c ≠ quote := by
      rintro rfl
      rcases hq with rfl | rfl <;> exact absurd hc (by decide)
    exact Quoted.notMem_text hc other s
  · intro value value' quote s s' h h' config begins
    rw [format_quoted h, format_quoted h'] at begins
    obtain rfl := Quoted.eq_of_text_prefix (quoted?_eq_some h).1 begins
    exact eq_of_quoted?_eq h h'

theorem quoted_reversible_escapes :
    let s := "\\\"\n\x00'é\\"
    Quoted.IsQuote '"' ∧ (text s).quoted? = some ('"', s) ∧ (char '\'').quoted? = some ('\'', "'") ∧
      format .standard (text s) = "\"\\\\\\\"\\n\\0'é\\\\\"" ∧
      format .standard (char '\'') = "'\\''" ∧
      (∀ c ∈ Quoted.controls, c ∉ (Quoted.text '"' s).toList) ∧
      Quoted.read '"' ((Quoted.text '"' s).toList ++ "\\\"".toList) = some (s.toList, "\\\"".toList) ∧
      ∀ value' s', value'.quoted? = some ('"', s') →
        (format .standard (text s)).toList <+: (format .standard value').toList → text s = value' := by
  intro s
  obtain ⟨reversible, drawn, apart⟩ := quoted_reversible
  obtain ⟨clean, read, -⟩ := reversible '"' (.inl rfl) s
  have hd := drawn (text s) '"' s rfl .standard .whole .empty
  have hd' := drawn (char '\'') '\'' "'" rfl .standard .whole .empty
  refine ⟨.inl rfl, rfl, rfl, hd.trans ?_, hd'.trans ?_, clean, read _, ?_⟩
  · decide +kernel
  · decide +kernel
  · exact fun value' s' h' => apart (text s) value' '"' s s' rfl h' .standard

end Literal

end PhaseTree
