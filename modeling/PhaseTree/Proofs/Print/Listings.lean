import Mathlib.Data.List.ReduceOption
import PhaseTree.Proofs.Print.Descent
import PhaseTree.Proofs.Print.SingleLine

set_option autoImplicit false

namespace PhaseTree.Listing

open Descent Lexeme

def isNameChar (c : Char) : Bool := c != ',' && c != '(' && c != ')'

structure IsName (name : String) : Prop where
  ne_empty : name ≠ ""
  chars : ∀ c ∈ name.toList, isNameChar c = true

def nameEnds (rest : List Char) : Bool := rest.head?.all fun c => !isNameChar c

namespace IsName

variable {name : String}

theorem toList_ne_nil (h : IsName name) : name.toList ≠ [] := by
  simpa using h.ne_empty

theorem exists_cons (h : IsName name) : ∃ c cs, name.toList = c :: cs ∧ c ≠ '(' ∧ c ≠ ')' := by
  obtain ⟨c, cs, hc⟩ := List.exists_cons_of_ne_nil h.toList_ne_nil
  have first := h.chars c (by simp [hc])
  simp only [isNameChar, Bool.and_eq_true, bne_iff_ne] at first
  exact ⟨c, cs, hc, first.1.2, first.2⟩

theorem takes (h : IsName name) : Takes (run isNameChar) nameEnds name.toList name.toList := by
  intro rest hr
  refine run_append h.toList_ne_nil h.chars ?_
  cases rest with
  | nil => exact boundary_nil _
  | cons c cs => exact (boundary_cons _ _ _).2 (by simpa [nameEnds] using hr)

theorem marker : IsName ".." := ⟨by decide, by decide⟩

end IsName

/-- What stands between the commas of a listing: its items, and `none` for the marker. -/
def entries (listing : Listing String) : List (Option String) :=
  listing.items.map some ++ if listing.isOpen then [none] else []

theorem reduceOption_entries (listing : Listing String) :
    listing.entries.reduceOption = listing.items := by
  have items : (listing.items.map some).reduceOption = listing.items := by
    simp [List.reduceOption, List.filterMap_map]
  cases h : listing.isOpen <;> simp [entries, h, items, List.reduceOption_append]

theorem none_mem_entries (listing : Listing String) :
    none ∈ listing.entries ↔ listing.isOpen = true := by
  cases h : listing.isOpen <;> simp [entries, h]

theorem eq_of_entries_eq {listing listing' : Listing String} (h : listing.entries = listing'.entries) :
    listing = listing' := by
  have items : listing.items = listing'.items := by
    rw [← reduceOption_entries, ← reduceOption_entries, h]
  have isOpen : listing.isOpen = listing'.isOpen := by
    rw [Bool.eq_iff_iff, ← none_mem_entries, ← none_mem_entries, h]
  cases listing
  cases listing'
  exact congr (congrArg mk items) isOpen

def entryText : Option String → List Char
  | some name => (bareDoc name).flat
  | none => "..".toList

theorem entryText_operator {name : String} (h : Reserved.isOperator name = true) :
    entryText (some name) = '(' :: (name.toList ++ [')']) := by
  rw [entryText, bareDoc, h]
  rfl

theorem entryText_plain {name : String} (h : Reserved.isOperator name = false) :
    entryText (some name) = name.toList := by
  rw [entryText, bareDoc, h]
  rfl

theorem flat_doc (listing : Listing String) : (listing.doc bareDoc).flat =
    '(' :: (", ".toList.intercalate (listing.entries.map entryText) ++ [')']) := by
  have parts : (if listing.isOpen then listing.items.map bareDoc ++ [.text ".."]
      else listing.items.map bareDoc).map Doc.flat = listing.entries.map entryText := by
    cases h : listing.isOpen <;> simp [entries, entryText, h]
  rw [doc, Doc.flat_parens, Doc.flat_separated, parts]

theorem onOneLine_doc (listing : Listing String) : (listing.doc bareDoc).OnOneLine := by
  have items : ∀ doc ∈ listing.items.map bareDoc, doc.OnOneLine :=
    List.forall_mem_map.2 fun name _ => onOneLine_bareDoc name
  refine (Doc.onOneLine_parens _).2 (Doc.onOneLine_separated ?_)
  split
  · exact List.forall_mem_append.2 ⟨items, List.forall_mem_singleton.2 trivial⟩
  · exact items

/-- An operator without parentheses around it can only be the marker. -/
def entry : Read (Option String)
  | '(' :: cs => do
    let (name, cs) ← followed [')'] (run isNameChar) cs
    return (some (String.ofList name), cs)
  | cs => do
    let (name, cs) ← run isNameChar cs
    return (if name = "..".toList then none else some (String.ofList name), cs)

theorem entry_of_run {c : Char} (h : c ≠ '(') {cs rest name : List Char}
    (hr : run isNameChar (c :: cs) = some (name, rest)) :
    entry (c :: cs) = some (if name = "..".toList then none else some (String.ofList name), rest) := by
  rw [entry.eq_2 _ fun cs' e => h (List.cons.inj e).1, hr]
  rfl

theorem takes_entry {e : Option String} (h : ∀ name ∈ e, IsName name) :
    Takes entry nameEnds (entryText e) e := by
  intro rest hr
  cases e with
  | none => exact entry_of_run (by decide) (IsName.marker.takes rest hr)
  | some name =>
    have hname := h name rfl
    cases ho : Reserved.isOperator name with
    | true =>
      rw [entryText_operator ho, List.cons_append, List.append_assoc, entry,
        hname.takes.followed fun _ => rfl]
      exact congrArg (fun name => some (some name, rest)) String.ofList_toList
    | false =>
      obtain ⟨c, cs, hc, hopen, -⟩ := hname.exists_cons
      have apart : name.toList ≠ "..".toList := by
        intro same
        rw [String.toList_inj.1 same] at ho
        contradiction
      have hr := hname.takes rest hr
      rw [hc, List.cons_append] at hr
      rw [entryText_plain ho, hc, List.cons_append, entry_of_run hopen hr, ← hc, if_neg apart,
        String.ofList_toList]

theorem head?_entryText {e : Option String} (h : ∀ name ∈ e, IsName name) (rest : List Char) :
    (entryText e ++ rest).head? ≠ some ')' := by
  cases e with
  | none => simp [entryText]
  | some name =>
    cases ho : Reserved.isOperator name with
    | true => simp [entryText_operator ho]
    | false =>
      obtain ⟨c, cs, hc, -, hclose⟩ := (h name rfl).exists_cons
      simpa [entryText_plain ho, hc] using hclose

def body (bound : Nat) : Read (List (Option String)) := fun cs =>
  if cs.head? = some ')' then some ([], cs.tail) else enclosed ')' entry bound cs

theorem settles_body {es : List (Option String)} (h : ∀ e ∈ es, ∀ name ∈ e, IsName name) :
    Settles body (fun _ => true) (", ".toList.intercalate (es.map entryText) ++ [')']) es := by
  refine (Filter.eventually_ge_atTop es.length).mono fun bound hb rest _ => ?_
  rw [List.append_assoc]
  cases es with
  | nil => rfl
  | cons e es =>
    obtain ⟨more, hm⟩ := exists_intercalate_cons ", ".toList (entryText e) (es.map entryText)
    have opens : (", ".toList.intercalate ((e :: es).map entryText) ++ ')' :: rest).head? ≠ some ')' := by
      rw [List.map_cons, hm, List.append_assoc]
      exact head?_entryText (h e List.mem_cons_self) _
    change body bound (_ ++ ')' :: rest) = _
    rw [body, if_neg opens]
    exact takes_enclosed ')' (fun _ => rfl) (fun _ => rfl) (fun e he => takes_entry (h e he))
      (List.cons_ne_nil _ _) hb rest

def Plain (listing : Listing String) : Prop := ∀ name ∈ listing.items, IsName name

theorem Plain.entries {listing : Listing String} (h : listing.Plain) :
    ∀ e ∈ listing.entries, ∀ name ∈ e, IsName name := by
  rintro e he name rfl
  refine h name ?_
  rw [← reduceOption_entries, List.reduceOption_mem_iff]
  exact he

variable {listing listing' : Listing String}

theorem eq_of_flat_eq (h : listing.Plain) (h' : listing'.Plain)
    (same : (listing.doc bareDoc).flat = (listing'.doc bareDoc).flat) : listing = listing' := by
  rw [flat_doc, flat_doc, List.cons_inj_right] at same
  exact eq_of_entries_eq ((settles_body h.entries).unique (settles_body h'.entries) same rfl)

theorem run_union {name : String} (h : IsName name) (listing : Listing String) :
    run isNameChar (Export.union name listing).doc.flat =
      some (name.toList, (listing.doc bareDoc).flat) := by
  refine h.takes (listing.doc bareDoc).flat ?_
  rw [flat_doc]
  rfl

theorem union_eq_of_flat_eq {name name' : String} (hn : IsName name) (hn' : IsName name')
    (h : listing.Plain) (h' : listing'.Plain)
    (same : (Export.union name listing).doc.flat = (Export.union name' listing').doc.flat) :
    name = name' ∧ listing = listing' := by
  have hread := run_union hn listing
  rw [same, run_union hn' listing'] at hread
  obtain ⟨names, listings⟩ := Prod.mk.inj (Option.some.inj hread)
  exact ⟨String.toList_inj.1 names.symm, eq_of_flat_eq h h' listings.symm⟩

/-- Neither two listings nor two unions with their constructors share a text. In particular the marker is
not mistaken for an item of that name. -/
theorem listing_eq_of_text_eq (config config' : Config) :
    (∀ listing listing' : Listing String, listing.Plain → listing'.Plain →
      format config listing = format config' listing' →
      listing.items = listing'.items ∧ listing.isOpen = listing'.isOpen) ∧
    (∀ listing listing' : Listing String, listing.Plain → listing'.Plain →
      listing.isOpen = false → ".." ∈ listing.items → listing'.isOpen = true →
      format config listing ≠ format config' listing') ∧
    (∀ (name name' : String) (listing listing' : Listing String), IsName name → IsName name' →
      listing.Plain → listing'.Plain →
      format config (Export.union name listing) = format config' (Export.union name' listing') →
      name = name' ∧ listing = listing') := by
  have determined : ∀ listing listing' : Listing String, listing.Plain → listing'.Plain →
      format config listing = format config' listing' → listing = listing' :=
    fun listing listing' h h' same =>
      eq_of_flat_eq h h' (Doc.flat_eq_of_text_eq listing.onOneLine_doc listing'.onOneLine_doc same)
  refine ⟨fun listing listing' h h' same => ?_, fun listing listing' h h' closed _ isOpen same => ?_,
    fun name name' listing listing' hn hn' h h' same => ?_⟩
  · rw [determined listing listing' h h' same]
    exact ⟨rfl, rfl⟩
  · rw [determined listing listing' h h' same, isOpen] at closed
    contradiction
  · exact union_eq_of_flat_eq hn hn' h h' (Doc.flat_eq_of_text_eq ⟨trivial, listing.onOneLine_doc⟩
      ⟨trivial, listing'.onOneLine_doc⟩ same)

theorem listing_eq_of_text_eq_marker :
    (exactly ["map", ".."]).Plain ∧ (⟨["map"], true⟩ : Listing String).Plain ∧
      format .standard (exactly ["map", ".."]) ≠ format .standard (⟨["map"], true⟩ : Listing String) := by
  have plain : (exactly ["map", ".."]).Plain :=
    List.forall_mem_cons.2 ⟨⟨by decide, by decide⟩, List.forall_mem_singleton.2 .marker⟩
  have plain' : (⟨["map"], true⟩ : Listing String).Plain :=
    List.forall_mem_singleton.2 ⟨by decide, by decide⟩
  exact ⟨plain, plain', (listing_eq_of_text_eq .standard .standard).2.1 _ _ plain plain' rfl (by decide) rfl⟩

end PhaseTree.Listing
