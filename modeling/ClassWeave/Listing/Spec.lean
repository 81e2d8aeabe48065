import ClassWeave.Hook.SpecFile
import ClassWeave.Hook.Trigger
import ClassWeave.Listing.Constant

/-!
# Listing hook specs

Shapes are listed by the words that spec files use for them, calls and fields by their three parts.
-/

namespace ClassWeave

open Term (call ofUInt16)

namespace CallSite

def toTerm (call : CallSite) : Term :=
  .list [.text call.owner.text, .text call.name.text, .text call.descriptor.render]

/-- Reads a listed call, whose parts may be wrong in themselves. -/
def ofTerm? : Term → Option (Except SpecFault CallSite)
  | .list [.text owner, .text name, .text descriptor] =>
    some (CallSite.ofTexts owner name descriptor)
  | _ => none

end CallSite

/-- Reads a listed field, whose parts may be wrong in themselves. -/
def FieldRef.checkedOfTerm? : Term → Option (Except SpecFault FieldRef)
  | .list [.text owner, .text name, .text type] => some do
    let owner ← SpecFault.checkName (BinaryName.ofString owner)
    let name ← SpecFault.checkName (UnqualifiedName.ofString name)
    return ⟨owner, name, ← fieldTypeOf type⟩
  | _ => none

namespace TriggerShape

def toTerm : TriggerShape → Term
  | entry slot => call "entry" [ofUInt16 slot]
  | entrySelect slot ifTrue ifFalse =>
    call "entry-select" [ofUInt16 slot, ifTrue.toTerm, ifFalse.toTerm]
  | callBranch site => call "call-branch" [site.toTerm]
  | callResult site => call "call-result" [site.toTerm]
  | aggregate site chunkOwner chunkMethod =>
    call "aggregate" [site.toTerm, .text chunkOwner.text, .text chunkMethod.text]
  | cache site field referenceClass =>
    call "cache" [site.toTerm, field.toTerm, .text referenceClass.text]

/-- Reads a listed shape, whose parts may be wrong in themselves. -/
def ofTerm? (term : Term) : Option (Except SpecFault TriggerShape) := do
  match ← term.toCall? with
  | ("entry", [slot]) =>
    let slot ← slot.toUInt16?
    return .ok (entry slot)
  | ("entry-select", [slot, ifTrue, ifFalse]) =>
    let slot ← slot.toUInt16?
    let ifTrue ← FieldRef.checkedOfTerm? ifTrue
    let ifFalse ← FieldRef.checkedOfTerm? ifFalse
    return do return entrySelect slot (← ifTrue) (← ifFalse)
  | ("call-branch", [site]) =>
    let site ← CallSite.ofTerm? site
    return callBranch <$> site
  | ("call-result", [site]) =>
    let site ← CallSite.ofTerm? site
    return callResult <$> site
  | ("aggregate", [site, .text chunkOwner, .text chunkMethod]) =>
    let site ← CallSite.ofTerm? site
    return do
      return aggregate (← site) (← SpecFault.checkName (BinaryName.ofString chunkOwner))
        (← SpecFault.checkName (UnqualifiedName.ofString chunkMethod))
  | ("cache", [site, field, .text referenceClass]) =>
    let site ← CallSite.ofTerm? site
    let field ← FieldRef.checkedOfTerm? field
    return do
      return cache (← site) (← field) (← SpecFault.checkName (BinaryName.ofString referenceClass))
  | _ => none

end TriggerShape

def TriggerPhase.toTerm : TriggerPhase → Term
  | start => call "start" []
  | awaitingCall => call "call" []
  | awaitingLocal => call "local" []
  | awaitingJump slot => call "jump" [ofUInt16 slot]
  | awaitingLabel slot label => call "label" [ofUInt16 slot, .ofNat label.index]
  | done => call "done" []
  | abandoned => call "abandoned" []

end ClassWeave
