import PhaseTree.Proofs.Print.Alphabet
import PhaseTree.Proofs.Print.Descent
import PhaseTree.Tree.TypeExpr

set_option autoImplicit false

namespace PhaseTree.TypeReader

open Descent Lexeme

abbrev Tree := TypeExpr RawName

def isOpening (c : Char) : Bool := c == '(' || c == '\x7b' || isNamePart c

def tuple (ts : List Tree) : Tree := .app (.con ⟨Reserved.tupleName ts.length⟩) ts

def ofHead (head : Tree) : List Tree → Tree
  | [] => head
  | args => .app head args

variable (letters : Alphabet)

def named : Read Tree := fun cs => do
  let (name, cs) ← nameText cs
  return (if letters.initialCase name = some .lower then .var name else .con ⟨name⟩, cs)

def application (operand : Read Tree) (bound : Nat) : Read Tree := fun cs => do
  let (head, cs) ← operand cs
  let (args, cs) ← spaced isOpening operand bound cs
  return (ofHead head args, cs)

def field (whole : Read Tree) : Read (String × Tree) := fun cs => do
  let (name, cs) ← followed " : ".toList nameText cs
  let (t, cs) ← whole cs
  return ((name, t), cs)

def fields (whole : Read Tree) (bound : Nat) : Read (List (String × Tree))
  | ' ' :: cs => some ([], ' ' :: cs)
  | cs => listed ", ".toList (field whole) bound cs

def extension (whole : Read Tree) : Read (Option Tree) := fun cs =>
  match followed " | ".toList whole cs with
  | some (t, cs) => some (some t, cs)
  | none => some (none, cs)

def record (whole : Read Tree) (bound : Nat) : Read Tree := fun cs => do
  let (ext, cs) ← extension whole cs
  let (fs, cs) ← followed " \x7d".toList (fields whole bound) cs
  return (.record fs ext, cs)

mutual
def whole : Nat → Read Tree
  | 0, _ => none
  | depth + 1, cs => do
    let (t, cs) ← application (operand depth) depth cs
    match " -> ".toList.isPrefixOf? cs with
    | some cs => do
      let (result, cs) ← whole depth cs
      return (.function t result, cs)
    | none => return (t, cs)
def operand : Nat → Read Tree
  | 0, _ => none
  | depth + 1, cs =>
    match cs with
    | '(' :: cs => group tuple (whole depth) depth cs
    | '\x7b' :: '\x7d' :: cs => some (.record [] none, cs)
    | '\x7b' :: ' ' :: cs => record (whole depth) depth cs
    | cs => named letters cs
end

def link (depth : Nat) : Read Tree := application (operand letters depth) depth

theorem whole_succ (depth : Nat) (cs : List Char) : whole letters (depth + 1) cs = (do
    let (t, cs) ← link letters depth cs
    match " -> ".toList.isPrefixOf? cs with
    | some cs => do
      let (result, cs) ← whole letters depth cs
      return (.function t result, cs)
    | none => return (t, cs)) := by
  rw [whole]
  rfl

def linkEnds (cs : List Char) : Bool := nameEnds cs && !continues isOpening cs

def wholeEnds (cs : List Char) : Bool := linkEnds cs && !" -> ".toList.isPrefixOf cs

variable {letters : Alphabet} {text text' : List Char} {t t' : Tree} {ts : List Tree} {depth bound : Nat}

theorem takes_application {read : Read Tree} {args : Tree → List Char} (head : Takes read nameEnds text t)
    (h : ∀ t ∈ ts, Takes read nameEnds (args t) t) (ho : ∀ t ∈ ts, (args t).head?.any isOpening = true)
    (hb : ts.length < bound) :
    Takes (application read bound) linkEnds (text ++ ts.flatMap fun t => ' ' :: args t) (ofHead t ts) := by
  have hspace : ∀ rest, nameEnds (' ' :: rest) = true := fun _ => rfl
  have hargs := takes_spaced hspace h ho hb
  intro rest hr
  have hends := ends_spaced hspace args ts (Bool.and_eq_true_iff.1 hr).1
  rw [List.append_assoc, application, head _ hends]
  simp only [Option.bind_eq_bind, Option.bind_some, hargs rest hr]
  rfl

theorem takes_alone {read : Read Tree} (h : Takes read nameEnds text t) (hb : 0 < bound) :
    Takes (application read bound) linkEnds text t := by
  have args : ∀ u ∈ ([] : List Tree), Takes read nameEnds [] u := nofun
  have happlied := takes_application h args nofun hb
  rwa [List.flatMap_nil, List.append_nil] at happlied

theorem takes_whole (h : Takes (link letters depth) linkEnds text t) :
    Takes (whole letters (depth + 1)) wholeEnds text t := by
  intro rest hr
  obtain ⟨hrest, hn⟩ := Bool.and_eq_true_iff.1 hr
  have hp := isPrefixOf?_eq_none hn
  rw [whole_succ, h rest hrest]
  simp only [Option.bind_eq_bind, Option.bind_some, hp]
  rfl

theorem takes_function (h : Takes (link letters depth) linkEnds text t)
    (h' : Takes (whole letters depth) wholeEnds text' t') :
    Takes (whole letters (depth + 1)) wholeEnds (text ++ (" -> ".toList ++ text')) (.function t t') := by
  intro rest hr
  rw [List.append_assoc, List.append_assoc, whole_succ, h _ rfl]
  simp only [Option.bind_eq_bind, Option.bind_some, List.isPrefixOf?_eq_some_iff_append_eq.2 rfl,
    h' rest hr]
  rfl

theorem wholeEnds_comma (rest : List Char) : wholeEnds (", ".toList ++ rest) = true := rfl

theorem takes_parens (h : Takes (whole letters depth) wholeEnds text t) (hd : 1 ≤ depth) :
    Takes (operand letters (depth + 1)) nameEnds ('(' :: (text ++ [')'])) t := by
  intro rest _
  rw [List.cons_append, List.append_assoc, operand]
  exact group_single wholeEnds_comma (fun _ => rfl) h hd rest

theorem takes_tuple {parts : Tree → List Char}
    (h : ∀ t ∈ ts, Takes (whole letters depth) wholeEnds (parts t) t) (hlen : 2 ≤ ts.length)
    (hb : ts.length ≤ depth) :
    Takes (operand letters (depth + 1)) nameEnds
      ('(' :: (", ".toList.intercalate (ts.map parts) ++ [')'])) (tuple ts) := by
  intro rest _
  rw [List.cons_append, List.append_assoc, operand]
  exact group_tuple wholeEnds_comma (fun _ => rfl) h hlen hb rest

theorem operand_of_isNamePart {c : Char} (h : isNamePart c = true) (cs : List Char) :
    operand letters (depth + 1) (c :: cs) = named letters (c :: cs) := by
  rw [operand]
  all_goals
    intro cs' e
    cases e
    contradiction

section

variable {name : String} (hn : IsNameText name)
include hn

theorem takes_named : Takes (operand letters (depth + 1)) nameEnds name.toList
    (if letters.initialCase name = some .lower then .var name else .con ⟨name⟩) := by
  intro rest hr
  obtain ⟨c, cs, hc, hpart⟩ := hn.exists_cons
  have hname := hn.nameText_append hr
  rw [hc, List.cons_append] at hname ⊢
  rw [operand_of_isNamePart hpart, named, hname]
  rfl

theorem takes_field {read : Read Tree} (h : Takes read wholeEnds text t) :
    Takes (field read) wholeEnds (name.toList ++ (" : ".toList ++ text)) (name, t) := by
  have hname : Takes nameText nameEnds name.toList name := fun _ hr => hn.nameText_append hr
  intro rest hr
  rw [List.append_assoc, List.append_assoc, field, hname.followed fun _ => rfl]
  simp only [Option.bind_eq_bind, Option.bind_some, h rest hr]
  rfl

/-- A field is not taken for the record that the fields are added to. -/
theorem extension_field (hd : 2 ≤ depth) (rest : List Char) :
    extension (whole letters depth) (name.toList ++ (" : ".toList ++ rest)) =
      some (none, name.toList ++ (" : ".toList ++ rest)) := by
  obtain ⟨depth, rfl⟩ := Nat.exists_eq_add_of_le' hd
  -- The field is read as a type, but no bar follows it.
  have hoperand : Takes (operand letters (depth + 1)) nameEnds name.toList _ := takes_named hn
  have hwhole := takes_whole (takes_alone hoperand (Nat.succ_pos depth))
  rw [extension, followed_eq_none (hwhole (" : ".toList ++ rest) rfl) rfl]

end

def fieldText (parts : Tree → List Char) (field : String × Tree) : List Char :=
  field.1.toList ++ (" : ".toList ++ parts field.2)

def fieldsText (parts : Tree → List Char) (fs : List (String × Tree)) : List Char :=
  ", ".toList.intercalate (fs.map (fieldText parts))

def extensionText (parts : Tree → List Char) : Option Tree → List Char
  | some t => parts t ++ " | ".toList
  | none => []

section

variable {read : Read Tree} {parts : Tree → List Char} {fs : List (String × Tree)} {ext : Option Tree}

theorem fieldsText_cons (parts : Tree → List Char) (field : String × Tree) (fs : List (String × Tree)) :
    ∃ more, fieldsText parts (field :: fs) = field.1.toList ++ (" : ".toList ++ more) := by
  obtain ⟨more, hm⟩ :=
    exists_intercalate_cons ", ".toList (fieldText parts field) (fs.map (fieldText parts))
  refine ⟨parts field.2 ++ more, hm.trans ?_⟩
  rw [fieldText, List.append_assoc, List.append_assoc]

theorem takes_fields (names : ∀ field ∈ fs, IsNameText field.1)
    (h : ∀ field ∈ fs, Takes read wholeEnds (parts field.2) field.2) (hb : fs.length ≤ bound) :
    Takes (fields read bound) " \x7d".toList.isPrefixOf (fieldsText parts fs) fs := by
  intro rest hr
  obtain ⟨rest, rfl⟩ := List.isPrefixOf_iff_prefix.1 hr
  cases fs with
  | nil => rfl
  | cons field fs =>
    have hitems : ∀ f ∈ field :: fs, Takes (TypeReader.field read) wholeEnds (fieldText parts f) f :=
      fun f hf => takes_field (names f hf) (h f hf)
    have hlist := takes_listed wholeEnds_comma hitems (List.cons_ne_nil _ _) hb (" \x7d".toList ++ rest) rfl
    obtain ⟨more, hm⟩ := fieldsText_cons parts field fs
    obtain ⟨c, cs, hc, hpart⟩ := (names field List.mem_cons_self).exists_cons
    rw [fieldsText] at hm ⊢
    rw [hm, hc] at hlist ⊢
    rw [fields]
    · exact hlist
    · intro cs' e
      cases e
      contradiction

theorem extension_append (names : ∀ field ∈ fs, IsNameText field.1)
    (h : ∀ t ∈ ext, Takes (whole letters depth) wholeEnds (parts t) t) (hne : fs ≠ [] ∨ ext ≠ none)
    (hd : 2 ≤ depth) (rest : List Char) :
    extension (whole letters depth) (extensionText parts ext ++ (fieldsText parts fs ++ rest)) =
      some (ext, fieldsText parts fs ++ rest) := by
  cases ext with
  | some t => rw [extensionText, List.append_assoc, extension, (h t rfl).followed fun _ => rfl]
  | none =>
    obtain ⟨field, fs, rfl⟩ := List.exists_cons_of_ne_nil (hne.resolve_right (absurd rfl))
    obtain ⟨more, hm⟩ := fieldsText_cons parts field fs
    rw [hm, List.append_assoc, List.append_assoc]
    exact extension_field (names field List.mem_cons_self) hd _

theorem takes_record (names : ∀ field ∈ fs, IsNameText field.1)
    (hfs : ∀ field ∈ fs, Takes (whole letters depth) wholeEnds (parts field.2) field.2)
    (hext : ∀ t ∈ ext, Takes (whole letters depth) wholeEnds (parts t) t) (hne : fs ≠ [] ∨ ext ≠ none)
    (hb : fs.length ≤ depth) (hd : 2 ≤ depth) :
    Takes (operand letters (depth + 1)) nameEnds
      ("\x7b ".toList ++ (extensionText parts ext ++ (fieldsText parts fs ++ " \x7d".toList)))
      (.record fs ext) := by
  intro rest hr
  have hclose : ∀ rest, " \x7d".toList.isPrefixOf (" \x7d".toList ++ rest) = true := fun _ => rfl
  have hextension := extension_append names hext hne hd (" \x7d".toList ++ rest)
  have hfields := (takes_fields names hfs hb).followed hclose rest
  have hrecord : record (whole letters depth) depth
      (extensionText parts ext ++ (fieldsText parts fs ++ (" \x7d".toList ++ rest))) =
      some (.record fs ext, rest) := by
    rw [record, hextension]
    simp only [Option.bind_eq_bind, Option.bind_some, hfields]
    rfl
  rw [List.append_assoc, List.append_assoc, List.append_assoc]
  exact hrecord

end

end PhaseTree.TypeReader
