import ClassWeave.Typing.Hierarchy

/-!
# Hierarchies around an edited class

A class that is being edited cannot be loaded, so its place in the hierarchy is that of its declared
superclass.
-/

namespace ClassWeave

/-- The class that is being edited. -/
structure EditedClass where
  name : BinaryName
  superclass : Option BinaryName

namespace EditedClass

/-- The superclass that the edited class shares with a different one. -/
def commonWith (edited : EditedClass) (around : Hierarchy) (other : BinaryName) :
    Except Fault BinaryName :=
  match edited.superclass with
  | none => .ok .object
  | some superclass =>
    if superclass = edited.name then .error (.hierarchyCycle superclass)
    else if superclass = other then .ok other
    else around.commonSuperclass superclass other

/-- The hierarchy `around` with the edited class in it. -/
def hierarchy (edited : EditedClass) (around : Hierarchy) : Hierarchy :=
  ⟨fun a b =>
    if a = b then .ok a
    else if b = edited.name then edited.commonWith around a
    else if a = edited.name then edited.commonWith around b
    else around.commonSuperclass a b⟩

end EditedClass

end ClassWeave
