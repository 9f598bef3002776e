set_option autoImplicit false

namespace PhaseTree

/-- Items keep the order, and the repetitions, in which they were written. -/
structure Listing (α : Type) where
  items : List α
  isOpen : Bool
  deriving DecidableEq

namespace Listing

variable {α β : Type}

def everything : Listing α := ⟨[], true⟩

def nothing : Listing α := ⟨[], false⟩

def exactly (items : List α) : Listing α := ⟨items, false⟩

def isEverything (listing : Listing α) : Bool := listing.isOpen && listing.items.isEmpty

def isNothing (listing : Listing α) : Bool := !listing.isOpen && listing.items.isEmpty

def exposes [BEq α] (listing : Listing α) (item : α) : Bool :=
  listing.isOpen || listing.items.contains item

def map (f : α → β) (listing : Listing α) : Listing β := ⟨listing.items.map f, listing.isOpen⟩

def add (listing : Listing α) (item : α) : Listing α :=
  { listing with items := listing.items ++ [item] }

def setOpen (listing : Listing α) (isOpen : Bool) : Listing α := { listing with isOpen }

theorem exposes_iff [BEq α] [LawfulBEq α] (listing : Listing α) (item : α) :
    listing.exposes item = true ↔ listing.isOpen = true ∨ item ∈ listing.items := by
  simp [exposes]

theorem isEverything_iff (listing : Listing α) :
    listing.isEverything = true ↔ listing = everything := by
  rcases listing with ⟨items, isOpen⟩
  cases items <;> cases isOpen <;> simp [isEverything, everything]

theorem isNothing_iff (listing : Listing α) : listing.isNothing = true ↔ listing = nothing := by
  rcases listing with ⟨items, isOpen⟩
  cases items <;> cases isOpen <;> simp [isNothing, nothing]

end Listing

end PhaseTree
