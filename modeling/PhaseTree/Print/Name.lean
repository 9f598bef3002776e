import PhaseTree.Export
import PhaseTree.Print.Basic

set_option autoImplicit false

namespace PhaseTree

instance : Printable RawName := ⟨fun _ _ name => .text name.text⟩

instance : Printable QualifiedName := ⟨fun _ _ name => .text name.display⟩

def bareDoc (name : String) : Doc := .parensIf (Reserved.isOperator name) (.text name)

instance : Printable String := ⟨fun _ _ => bareDoc⟩

def nameDoc {V : Type} [Named V] (name : V) : Doc :=
  .parensIf (Reserved.isOperator (Named.bare name)) (.text (Named.display name))

/-- A name between its operands; names that are no operators stand in back quotes. -/
def infixDoc {V : Type} [Named V] (name : V) : Doc :=
  if Reserved.isOperator (Named.bare name) then .text (Named.bare name)
  else .between "`" "`" (.text (Named.display name))

def Listing.doc {α : Type} (item : α → Doc) (listing : Listing α) : Doc :=
  let items := listing.items.map item
  .parens (.separated ", " (if listing.isOpen then items ++ [.text ".."] else items))

instance {α : Type} [Printable α] : Printable (Listing α) :=
  ⟨fun config _ => Listing.doc (Printable.doc config .whole)⟩

def Export.doc : Export → Doc
  | value name => bareDoc name
  | typeAlias name => .text name
  | union name constructors => .text name ++ constructors.doc bareDoc

instance : Printable Export := ⟨fun _ _ => Export.doc⟩

end PhaseTree
