import PhaseTree.Listing

set_option autoImplicit false

namespace PhaseTree

inductive Export where
  | value (name : String)
  | typeAlias (name : String)
  /-- A union type with the constructors exposed along with it. -/
  | union (name : String) (constructors : Listing String)
  deriving DecidableEq

namespace Export

def name : Export → String
  | value name => name
  | typeAlias name => name
  | union name _ => name

def value? : Export → Option String
  | value name => some name
  | _ => none

def typeAlias? : Export → Option String
  | typeAlias name => some name
  | _ => none

def union? : Export → Option (String × Listing String)
  | union name constructors => some (name, constructors)
  | _ => none

def values (symbols : List Export) : List String := symbols.filterMap value?

def aliases (symbols : List Export) : List String := symbols.filterMap typeAlias?

def unions (symbols : List Export) : List (String × Listing String) := symbols.filterMap union?

end Export

end PhaseTree
