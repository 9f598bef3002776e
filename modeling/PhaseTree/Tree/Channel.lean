set_option autoImplicit false

namespace PhaseTree

inductive Channel (E T : Type) where
  | inbound (name : String) (type : T)
  | outbound (name : String) (value : E) (type : T)
  /-- Runs a deferred computation on behalf of the host. -/
  | task (name : String) (value : E) (type : T)
  deriving DecidableEq

namespace Channel

variable {E F T U : Type}

def name : Channel E T → String
  | inbound name _ => name
  | outbound name _ _ => name
  | task name _ _ => name

def type : Channel E T → T
  | inbound _ type => type
  | outbound _ _ type => type
  | task _ _ type => type

def value? : Channel E T → Option E
  | inbound _ _ => none
  | outbound _ value _ => some value
  | task _ value _ => some value

def map (onValue : E → F) (onType : T → U) : Channel E T → Channel F U
  | inbound name type => inbound name (onType type)
  | outbound name value type => outbound name (onValue value) (onType type)
  | task name value type => task name (onValue value) (onType type)

end Channel

end PhaseTree
