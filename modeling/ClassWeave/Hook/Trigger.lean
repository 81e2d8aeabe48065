import ClassWeave.Hook.Site

/-!
# Finding triggers

Goes through the items of a method until the trigger of a target has been found, and puts the hook
there. The hook goes in once, however often the trigger occurs.
-/

namespace ClassWeave

/-- How much of the trigger has been found. -/
inductive TriggerPhase where
  /-- Before the first item. -/
  | start
  | awaitingCall
  /-- The call is found; next comes the local that its result goes into. -/
  | awaitingLocal
  | awaitingJump (slot : UInt16)
  | awaitingLabel (slot : UInt16) (label : Label)
  /-- The hook is in its place. -/
  | done
  /-- The trigger is found where the hook cannot be. -/
  | abandoned
  deriving DecidableEq, Repr

/-- A target with the way its hook calls the interface. -/
structure HookPlan where
  call : HookCall
  target : Target

/-- How far the search has come, and the first label that is free. -/
structure TriggerSearch where
  phase : TriggerPhase
  nextLabel : Label
  deriving DecidableEq, Repr

namespace TriggerSearch

/-- The search with the hook in its place, and the hook. -/
def placeHook (plan : HookPlan) (search : TriggerSearch) (slot : UInt16) :
    TriggerSearch × List Item :=
  (⟨.done, HookSite.nextLabel plan.target.shape search.nextLabel⟩,
    HookSite.items plan.call plan.target slot search.nextLabel)

/-- The start of a method, with what goes before its first item. -/
def begin (plan : HookPlan) (nextLabel : Label) : TriggerSearch × List Item :=
  let search : TriggerSearch := ⟨.start, nextLabel⟩
  match plan.target.shape with
  | .entry slot | .entrySelect slot _ _ => search.placeHook plan slot
  | _ => (⟨.awaitingCall, nextLabel⟩, [])

/-- Goes over an item. The answer holds what goes after it. -/
def advance (plan : HookPlan) (search : TriggerSearch) (item : Item) :
    TriggerSearch × List Item :=
  let goOn (phase : TriggerPhase) : TriggerSearch × List Item := (⟨phase, search.nextLabel⟩, [])
  let shape := plan.target.shape
  match search.phase, item with
  | .awaitingCall, .instruction (.invoke _ method) =>
    if shape.call?.any (·.isCallOf method) then goOn .awaitingLocal else goOn .awaitingCall
  | .awaitingLocal, .instruction step =>
    match step.accessedSlot?, shape with
    | none, _ => goOn .awaitingLocal
    | some slot, .callBranch _ => goOn (.awaitingJump slot)
    | some slot, shape =>
      if HookSite.hasScratchLocals shape slot then search.placeHook plan slot
      else goOn .abandoned
  | .awaitingJump slot, .branch jump =>
    match jump.jumpTarget? with
    | some label => goOn (.awaitingLabel slot label)
    | none => goOn (.awaitingJump slot)
  | .awaitingLabel slot label, .label seen =>
    if seen = label then search.placeHook plan slot else goOn (.awaitingLabel slot label)
  | phase, _ => goOn phase

/-- Goes over the rest of a method, after the reversed items in `seen`. -/
def finish (plan : HookPlan) (search : TriggerSearch) (seen : List Item) :
    List Item → TriggerSearch × List Item
  | [] => (search, seen.reverse)
  | item :: rest =>
    let (search, added) := search.advance plan item
    search.finish plan (added.reverse ++ item :: seen) rest

end TriggerSearch

/-- The body with the hook in it, if the trigger occurs. -/
def HookPlan.hooked? (plan : HookPlan) (body : Body) : Option Body :=
  let (search, added) := TriggerSearch.begin plan body.nextLabel
  let (search, items) := search.finish plan added.reverse body.items
  if search.phase = .done then some { body with items, nextLabel := search.nextLabel } else none

end ClassWeave
