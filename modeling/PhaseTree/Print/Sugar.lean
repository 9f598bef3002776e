import PhaseTree.Name.Reserved

set_option autoImplicit false

namespace PhaseTree

inductive Sugar where
  /-- `head :: tail` -/
  | cons
  | nil
  /-- `(a, b)` -/
  | tuple
  | plain
  deriving DecidableEq

def Sugar.of (name : String) (arity : Nat) : Sugar :=
  if name = Reserved.cons ∧ arity = 2 then cons
  else if name = Reserved.nil ∧ arity = 0 then nil
  else if Reserved.isTupleName name then tuple
  else plain

theorem Sugar.of_eq_cons_iff (name : String) (arity : Nat) :
    Sugar.of name arity = cons ↔ name = Reserved.cons ∧ arity = 2 := by
  unfold Sugar.of
  grind

theorem Sugar.of_eq_nil_iff (name : String) (arity : Nat) :
    Sugar.of name arity = nil ↔ name = Reserved.nil ∧ arity = 0 := by
  unfold Sugar.of
  grind

theorem Sugar.of_tupleName {name : String} (h : Reserved.isTupleName name = true) (arity : Nat) :
    Sugar.of name arity = tuple := by
  have notCons : name ≠ Reserved.cons := fun e => by
    rw [e, Reserved.isTupleName_cons] at h
    contradiction
  have notNil : name ≠ Reserved.nil := fun e => by
    rw [e, Reserved.isTupleName_nil] at h
    contradiction
  simp [of, notCons, notNil, h]

theorem Sugar.of_tuple (length arity : Nat) : Sugar.of (Reserved.tupleName length) arity = tuple :=
  of_tupleName (Reserved.isTupleName_tupleName length) arity

end PhaseTree
