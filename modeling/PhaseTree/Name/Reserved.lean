set_option autoImplicit false

namespace PhaseTree.Reserved

def cons : String := "::"

def nil : String := "[]"

/-- The body of a `let` whose definitions have to survive although nothing refers to them. -/
def saveEnvironment : String := "_save_the_environment!!!"

def tupleStem : String := "_Tuple"

def tupleName (arity : Nat) : String := tupleStem ++ arity.repr

def isNumeral (digits : List Char) : Bool := !digits.isEmpty && digits.all Char.isDigit

/-- Leading zeros are accepted, so more names than those of `tupleName` pass. -/
def isTupleName (name : String) : Bool :=
  match tupleStem.toList.isPrefixOf? name.toList with
  | some digits => isNumeral digits
  | none => false

def operatorChars : List Char := "+-/*=.$<>:&|^?%#@~!".toList

def isOperator (name : String) : Bool :=
  !name.toList.isEmpty && name.toList.all operatorChars.contains

theorem isOperator_cons : isOperator cons = true := by decide

theorem isTupleName_cons : isTupleName cons = false := by decide

theorem isTupleName_nil : isTupleName nil = false := by decide

theorem isTupleName_tupleName (arity : Nat) : isTupleName (tupleName arity) = true := by
  have hd : isNumeral arity.repr.toList = true := by
    have hall : ∀ c ∈ Nat.toDigits 10 arity, c.isDigit = true := fun c hc =>
      Nat.isDigit_of_mem_toDigits (by decide) (by decide) hc
    rw [isNumeral, Nat.toList_repr, List.all_eq_true.2 hall]
    simp
  rw [isTupleName, tupleName, String.toList_append]
  exact hd

end PhaseTree.Reserved
