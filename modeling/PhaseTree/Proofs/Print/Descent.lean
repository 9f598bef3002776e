import Mathlib.Data.List.Flatten
import Mathlib.Data.Set.Finite.List
import Mathlib.Order.Filter.AtTopBot.Basic
import Mathlib.Order.Filter.Finite
import PhaseTree.Proofs.Print.Lexemes

set_option autoImplicit false

namespace PhaseTree.Descent

open Filter Lexeme

variable {X : Type}

abbrev Read (X : Type) := List Char → Option (X × List Char)

/-- In front of whatever ends it, the text is read as `x`. -/
def Takes (read : Read X) (ends : List Char → Bool) (text : List Char) (x : X) : Prop :=
  ∀ rest, ends rest = true → read (text ++ rest) = some (x, rest)

/-- From some depth on, the text is read as `x`. -/
def Settles (read : Nat → Read X) (ends : List Char → Bool) (text : List Char) (x : X) : Prop :=
  ∀ᶠ depth in atTop, Takes (read depth) ends text x

variable {read : Nat → Read X} {ends : List Char → Bool}

/-- A reader may use readers of the depth below its own. -/
theorem settles_of_succ {text : List Char} {x : X}
    (h : ∀ᶠ depth in atTop, Takes (read (depth + 1)) ends text x) : Settles read ends text x := by
  rw [Settles, ← map_add_atTop_eq_nat 1]
  exact eventually_map.2 h

theorem Settles.forall_mem {I : Type} {text : I → List Char} {value : I → X} {is : List I}
    (h : ∀ i ∈ is, Settles read ends (text i) (value i)) :
    ∀ᶠ depth in atTop, ∀ i ∈ is, Takes (read depth) ends (text i) (value i) :=
  (eventually_all_finite is.finite_toSet).2 h

theorem Settles.unique {text text' : List Char} {x x' : X} (h : Settles read ends text x)
    (h' : Settles read ends text' x') (same : text = text') (hends : ends [] = true) : x = x' := by
  subst same
  obtain ⟨depth, taken, taken'⟩ := (Eventually.and h h').exists
  have hx := taken [] hends
  rw [taken' [] hends] at hx
  exact (congrArg Prod.fst (Option.some.inj hx)).symm

def followed (closing : List Char) (read : Read X) : Read X := fun cs => do
  let (x, cs) ← read cs
  let cs ← closing.isPrefixOf? cs
  return (x, cs)

theorem Takes.followed {read : Read X} {text closing : List Char} {x : X} (h : Takes read ends text x)
    (hends : ∀ rest, ends (closing ++ rest) = true) (rest : List Char) :
    followed closing read (text ++ (closing ++ rest)) = some (x, rest) := by
  rw [Descent.followed, h _ (hends rest)]
  simp only [Option.bind_eq_bind, Option.bind_some, List.isPrefixOf?_eq_some_iff_append_eq.2 rfl]
  rfl

theorem followed_eq_none {read : Read X} {closing cs rest : List Char} {x : X}
    (h : read cs = some (x, rest)) (hc : (!closing.isPrefixOf rest) = true) :
    followed closing read cs = none := by
  have hn := isPrefixOf?_eq_none hc
  simp [followed, h, hn]

def listed (separator : List Char) (item : Read X) : Nat → Read (List X)
  | 0, _ => none
  | bound + 1, cs => do
    let (x, cs) ← item cs
    match separator.isPrefixOf? cs with
    | some cs => do
      let (xs, cs) ← listed separator item bound cs
      return (x :: xs, cs)
    | none => return ([x], cs)

theorem exists_intercalate_cons (separator first : List Char) (others : List (List Char)) :
    ∃ more, separator.intercalate (first :: others) = first ++ more := by
  cases others with
  | nil => exact ⟨[], by simp⟩
  | cons next others => exact ⟨_, List.intercalate_cons_cons.trans (List.append_assoc _ _ _)⟩

def continues (opens : Char → Bool) : List Char → Bool
  | ' ' :: c :: _ => opens c
  | _ => false

theorem not_continues_of_head {opens : Char → Bool} {cs : List Char} (h : cs.head? ≠ some ' ') :
    (!continues opens cs) = true := by
  unfold continues
  split
  · exact absurd rfl h
  · rfl

def spaced (opens : Char → Bool) (item : Read X) : Nat → Read (List X)
  | 0, _ => none
  | bound + 1, cs =>
    if continues opens cs then do
      let (x, cs) ← item cs.tail
      let (xs, cs) ← spaced opens item bound cs
      return (x :: xs, cs)
    else some ([], cs)

variable {item : Read X} {text : X → List Char} {xs : List X} {bound : Nat}

theorem takes_listed {separator : List Char} (hsep : ∀ rest, ends (separator ++ rest) = true)
    (h : ∀ x ∈ xs, Takes item ends (text x) x) (hne : xs ≠ []) (hb : xs.length ≤ bound) :
    Takes (listed separator item bound) (fun rest => ends rest && !separator.isPrefixOf rest)
      (separator.intercalate (xs.map text)) xs := by
  intro rest hr
  obtain ⟨hrest, hlast⟩ := Bool.and_eq_true_iff.1 hr
  -- Each part but the last ends at a separator, the last one where the list ends.
  induction xs generalizing bound with
  | nil => contradiction
  | cons x xs ih =>
    obtain ⟨hx, hxs⟩ := List.forall_mem_cons.1 h
    obtain ⟨bound, rfl⟩ : ∃ b, bound = b + 1 := ⟨bound - 1, by simp at hb; omega⟩
    cases xs with
    | nil =>
      have hn := isPrefixOf?_eq_none hlast
      simp only [List.map_cons, List.map_nil, List.intercalate_singleton, listed, hx rest hrest]
      simp [hn]
    | cons next xs =>
      have ho := ih hxs (List.cons_ne_nil _ _) (Nat.le_of_succ_le_succ hb)
      rw [List.map_cons, List.map_cons, List.intercalate_cons_cons, ← List.map_cons, List.append_assoc,
        List.append_assoc, listed, hx _ (hsep _)]
      simp only [Option.bind_eq_bind, Option.bind_some,
        List.isPrefixOf?_eq_some_iff_append_eq.2 rfl, ho]
      rfl

def enclosed (closing : Char) (item : Read X) (bound : Nat) : Read (List X) :=
  followed [closing] (listed ", ".toList item bound)

theorem takes_enclosed (closing : Char) (hcomma : ∀ rest, ends (", ".toList ++ rest) = true)
    (hclose : ∀ rest, (ends (closing :: rest) && !", ".toList.isPrefixOf (closing :: rest)) = true)
    (h : ∀ x ∈ xs, Takes item ends (text x) x) (hne : xs ≠ []) (hb : xs.length ≤ bound)
    (rest : List Char) :
    enclosed closing item bound (", ".toList.intercalate (xs.map text) ++ closing :: rest) =
      some (xs, rest) :=
  (takes_listed hcomma h hne hb).followed hclose rest

def group (tuple : List X → X) (item : Read X) (bound : Nat) : Read X := fun cs => do
  let (xs, cs) ← enclosed ')' item bound cs
  match xs with
  | [x] => return (x, cs)
  | xs => return (tuple xs, cs)

section

variable {tuple : List X → X} (hcomma : ∀ rest, ends (", ".toList ++ rest) = true)
  (hclose : ∀ rest, (ends (')' :: rest) && !", ".toList.isPrefixOf (')' :: rest)) = true)
include hcomma hclose

theorem group_single {body : List Char} {x : X} (h : Takes item ends body x) (hb : 1 ≤ bound)
    (rest : List Char) : group tuple item bound (body ++ ')' :: rest) = some (x, rest) := by
  have hone : ∀ y ∈ [x], Takes item ends body y := List.forall_mem_singleton.2 h
  have hx := takes_enclosed ')' hcomma hclose hone (List.cons_ne_nil _ _) hb rest
  rw [List.map_singleton, List.intercalate_singleton] at hx
  rw [group, hx]
  rfl

theorem group_tuple (h : ∀ x ∈ xs, Takes item ends (text x) x) (hlen : 2 ≤ xs.length)
    (hb : xs.length ≤ bound) (rest : List Char) :
    group tuple item bound (", ".toList.intercalate (xs.map text) ++ ')' :: rest) =
      some (tuple xs, rest) := by
  obtain ⟨x, y, zs, rfl⟩ : ∃ x y zs, xs = x :: y :: zs := by
    rcases xs with _ | ⟨x, _ | ⟨y, zs⟩⟩
    · contradiction
    · contradiction
    · exact ⟨x, y, zs, rfl⟩
  rw [group, takes_enclosed ')' hcomma hclose h (List.cons_ne_nil _ _) hb]
  rfl

end

theorem spaced_eq_nil {opens : Char → Bool} {cs : List Char} (h : (!continues opens cs) = true)
    (hb : 0 < bound) : spaced opens item bound cs = some ([], cs) := by
  obtain ⟨bound, rfl⟩ := Nat.exists_eq_add_of_le' hb
  rw [spaced, if_neg (by simpa using h)]

theorem ends_spaced (hspace : ∀ rest, ends (' ' :: rest) = true) (text : X → List Char) (xs : List X)
    {rest : List Char} (hr : ends rest = true) :
    ends ((xs.flatMap fun x => ' ' :: text x) ++ rest) = true := by
  cases xs with
  | nil => exact hr
  | cons x xs => exact hspace _

theorem takes_spaced {opens : Char → Bool} (hspace : ∀ rest, ends (' ' :: rest) = true)
    (h : ∀ x ∈ xs, Takes item ends (text x) x) (ho : ∀ x ∈ xs, (text x).head?.any opens = true)
    (hb : xs.length < bound) :
    Takes (spaced opens item bound) (fun rest => ends rest && !continues opens rest)
      (xs.flatMap fun x => ' ' :: text x) xs := by
  intro rest hr
  obtain ⟨hrest, hlast⟩ := Bool.and_eq_true_iff.1 hr
  induction xs generalizing bound with
  | nil => exact spaced_eq_nil hlast hb
  | cons x xs ih =>
    obtain ⟨hx, hxs⟩ := List.forall_mem_cons.1 h
    obtain ⟨hox, hoxs⟩ := List.forall_mem_cons.1 ho
    obtain ⟨bound, rfl⟩ : ∃ b, bound = b + 1 := ⟨bound - 1, by omega⟩
    have hends := ends_spaced hspace text xs hrest
    have hc : continues opens
        (' ' :: (text x ++ (xs.flatMap (fun x => ' ' :: text x) ++ rest))) = true := by
      cases ht : text x with
      | nil => simp [ht] at hox
      | cons c cs => simpa [ht, continues] using hox
    rw [List.flatMap_cons, List.cons_append, List.cons_append, List.append_assoc, spaced, if_pos hc,
      List.tail_cons, hx _ hends]
    simp only [Option.bind_eq_bind, Option.bind_some, ih hxs hoxs (Nat.lt_of_succ_lt_succ hb)]
    rfl

end PhaseTree.Descent
