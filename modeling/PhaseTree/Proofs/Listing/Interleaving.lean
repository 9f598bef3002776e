import Mathlib.Data.List.Basic
import Mathlib.Logic.Relation
import PhaseTree.Export

set_option autoImplicit false

namespace PhaseTree.Export

open Relation

inductive Kind where
  | value
  | typeAlias
  | union
  deriving DecidableEq

def kind : Export → Kind
  | value _ => .value
  | typeAlias _ => .typeAlias
  | union _ _ => .union

def ofKind (kind : Kind) (symbols : List Export) : List Export := symbols.filter (·.kind = kind)

theorem ofKind_append (kind : Kind) (symbols symbols' : List Export) :
    ofKind kind (symbols ++ symbols') = ofKind kind symbols ++ ofKind kind symbols' :=
  List.filter_append _ _

theorem ofKind_cons (kind : Kind) (symbol : Export) (symbols : List Export) :
    ofKind kind (symbol :: symbols) =
      if symbol.kind = kind then symbol :: ofKind kind symbols else ofKind kind symbols := by
  simp only [ofKind, List.filter_cons, decide_eq_true_eq]

theorem ofKind_ofKind (kind kind' : Kind) (symbols : List Export) :
    ofKind kind (ofKind kind' symbols) = if kind = kind' then ofKind kind symbols else [] := by
  rw [ofKind, ofKind, List.filter_filter]
  split
  · rename_i same
    simp [same, ofKind]
  · rename_i apart
    refine List.filter_eq_nil_iff.2 fun symbol _ => ?_
    rw [Bool.and_eq_true, decide_eq_true_eq, decide_eq_true_eq]
    rintro ⟨rfl, same⟩
    exact apart same

theorem map_filterMap {α : Type} {kind : Kind} {part? : Export → Option α} {whole : α → Export}
    (h : ∀ symbol, (part? symbol).map whole = if symbol.kind = kind then some symbol else none)
    (symbols : List Export) : (symbols.filterMap part?).map whole = ofKind kind symbols := by
  rw [List.map_filterMap, ofKind, ← List.filterMap_eq_filter]
  refine List.filterMap_congr fun symbol _ => ?_
  simp [h, Option.guard]

theorem map_values (symbols : List Export) : (values symbols).map value = ofKind .value symbols :=
  map_filterMap (fun symbol => by cases symbol <;> rfl) symbols

theorem map_aliases (symbols : List Export) :
    (aliases symbols).map typeAlias = ofKind .typeAlias symbols :=
  map_filterMap (fun symbol => by cases symbol <;> rfl) symbols

theorem map_unions (symbols : List Export) :
    (unions symbols).map (Function.uncurry union) = ofKind .union symbols :=
  map_filterMap (fun symbol => by cases symbol <;> rfl) symbols

theorem projections_eq_iff (symbols symbols' : List Export) :
    (values symbols = values symbols' ∧ aliases symbols = aliases symbols' ∧
      unions symbols = unions symbols') ↔
    ∀ kind, ofKind kind symbols = ofKind kind symbols' := by
  constructor
  · rintro ⟨hvalues, haliases, hunions⟩ kind
    cases kind with
    | value => rw [← map_values, hvalues, map_values]
    | typeAlias => rw [← map_aliases, haliases, map_aliases]
    | union => rw [← map_unions, hunions, map_unions]
  · intro same
    have values_inj : Function.Injective value := fun _ _ => value.inj
    have aliases_inj : Function.Injective typeAlias := fun _ _ => typeAlias.inj
    have unions_inj : Function.Injective (Function.uncurry union) := fun _ _ e =>
      Prod.ext (union.inj e).1 (union.inj e).2
    refine ⟨values_inj.list_map ?_, aliases_inj.list_map ?_, unions_inj.list_map ?_⟩
    · rw [map_values, map_values, same]
    · rw [map_aliases, map_aliases, same]
    · rw [map_unions, map_unions, same]

/-- Two neighbours of different classes change places. -/
inductive Swap : List Export → List Export → Prop where
  | neighbours (before after : List Export) {first second : Export} (h : first.kind ≠ second.kind) :
      Swap (before ++ first :: second :: after) (before ++ second :: first :: after)

theorem Swap.ofKind_eq {symbols symbols' : List Export} (h : Swap symbols symbols') (kind : Kind) :
    ofKind kind symbols = ofKind kind symbols' := by
  obtain ⟨before, after, apart⟩ := h
  rw [ofKind_append, ofKind_append]
  congr 1
  simp only [ofKind_cons]
  split_ifs with first second
  · exact absurd (first.trans second.symm) apart
  all_goals rfl

theorem Swap.cons {symbols symbols' : List Export} (h : Swap symbols symbols') (symbol : Export) :
    Swap (symbol :: symbols) (symbol :: symbols') := by
  obtain ⟨before, after, apart⟩ := h
  exact .neighbours (symbol :: before) after apart

theorem Swap.perm {symbols symbols' : List Export} (h : Swap symbols symbols') :
    symbols.Perm symbols' := by
  obtain ⟨before, after, -⟩ := h
  exact (List.Perm.swap _ _ after).append_left before

theorem ofKind_eq_of_swaps {symbols symbols' : List Export} (h : ReflTransGen Swap symbols symbols')
    (kind : Kind) : ofKind kind symbols = ofKind kind symbols' := by
  induction h with
  | refl => rfl
  | tail _ swap ih => exact ih.trans (swap.ofKind_eq kind)

theorem swaps_perm {symbols symbols' : List Export} (h : ReflTransGen Swap symbols symbols') :
    symbols.Perm symbols' := by
  induction h with
  | refl => exact .refl _
  | tail _ swap ih => exact ih.trans swap.perm

theorem swaps_cons {symbols symbols' : List Export} (h : ReflTransGen Swap symbols symbols')
    (symbol : Export) : ReflTransGen Swap (symbol :: symbols) (symbol :: symbols') :=
  h.lift (symbol :: ·) fun _ _ swap => swap.cons symbol

theorem swaps_behind {symbol : Export} {before : List Export}
    (h : ∀ other ∈ before, other.kind ≠ symbol.kind) (after : List Export) :
    ReflTransGen Swap (symbol :: (before ++ after)) (before ++ symbol :: after) := by
  induction before with
  | nil => exact .refl
  | cons other before ih =>
    obtain ⟨apart, others⟩ := List.forall_mem_cons.1 h
    exact .head (.neighbours [] (before ++ after) apart.symm) (swaps_cons (ih others) other)

/-- The first symbol of one list is the first of its class in the other one, so that it can be taken out
of both. -/
theorem swaps_of_ofKind_eq {symbols symbols' : List Export}
    (h : ∀ kind, ofKind kind symbols = ofKind kind symbols') : ReflTransGen Swap symbols symbols' := by
  induction symbols generalizing symbols' with
  | nil =>
    cases symbols' with
    | nil => exact .refl
    | cons symbol rest =>
      have head := h symbol.kind
      rw [ofKind_cons, if_pos rfl] at head
      contradiction
  | cons symbol rest ih =>
    have own := h symbol.kind
    rw [ofKind_cons, if_pos rfl] at own
    obtain ⟨before, after, rfl, apart, -, behind⟩ := List.filter_eq_cons_iff.1 own.symm
    have apart : ∀ other ∈ before, other.kind ≠ symbol.kind := by simpa using apart
    have others : ∀ kind, ofKind kind rest = ofKind kind (before ++ after) := by
      intro kind
      have hk := h kind
      rw [ofKind_append, ofKind_cons, ofKind_cons] at hk
      rw [ofKind_append]
      -- Its own class loses the symbol at the front, the other classes do not notice that it is gone.
      split_ifs at hk with own
      · subst own
        have absent : ofKind symbol.kind before = [] := List.filter_eq_nil_iff.2 (by simpa using apart)
        rw [absent]
        exact behind.symm
      · exact hk
    exact (swaps_cons (ih others) symbol).trans (swaps_behind apart after)

def gathered (symbols : List Export) : List Export :=
  ofKind .value symbols ++ ofKind .typeAlias symbols ++ ofKind .union symbols

theorem swaps_gathered (symbols : List Export) : ReflTransGen Swap symbols (gathered symbols) := by
  refine swaps_of_ofKind_eq fun kind => ?_
  cases kind <;> simp [gathered, ofKind_append, ofKind_ofKind]

/-- The projections hold each symbol once, in its own class and with everything it has, and keep the order
of the symbols of a class. -/
theorem projections_up_to_interleaving :
    (∀ symbols symbols' : List Export,
      (values symbols = values symbols' ∧ aliases symbols = aliases symbols' ∧
        unions symbols = unions symbols') ↔ ReflTransGen Swap symbols symbols') ∧
    (∀ symbols : List Export,
      (values symbols).length + (aliases symbols).length + (unions symbols).length = symbols.length ∧
      (values symbols).map value = symbols.filter (·.kind = .value) ∧
      (aliases symbols).map typeAlias = symbols.filter (·.kind = .typeAlias) ∧
      (unions symbols).map (Function.uncurry union) = symbols.filter (·.kind = .union) ∧
      symbols.Perm ((values symbols).map value ++ (aliases symbols).map typeAlias ++
        (unions symbols).map (Function.uncurry union))) ∧
    ∀ symbols symbols' : List Export,
      values (symbols ++ symbols') = values symbols ++ values symbols' ∧
      aliases (symbols ++ symbols') = aliases symbols ++ aliases symbols' ∧
      unions (symbols ++ symbols') = unions symbols ++ unions symbols' := by
  refine ⟨fun symbols symbols' => ?_, fun symbols => ?_, fun symbols symbols' => ?_⟩
  · rw [projections_eq_iff]
    exact ⟨swaps_of_ofKind_eq, ofKind_eq_of_swaps⟩
  · have perm : symbols.Perm ((values symbols).map value ++ (aliases symbols).map typeAlias ++
        (unions symbols).map (Function.uncurry union)) := by
      rw [map_values, map_aliases, map_unions]
      exact swaps_perm (swaps_gathered symbols)
    refine ⟨?_, map_values symbols, map_aliases symbols, map_unions symbols, perm⟩
    simpa [Nat.add_assoc] using perm.length_eq.symm
  · exact ⟨List.filterMap_append, List.filterMap_append, List.filterMap_append⟩

end PhaseTree.Export
