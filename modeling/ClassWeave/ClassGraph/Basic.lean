import Std.Data.HashSet
import ClassWeave.ClassGraph.Source
import ClassWeave.Typing.Hierarchy

/-!
# Class graphs

A class graph holds classes with all their supertypes. It grows as classes are asked for: a class is
added after its supertypes, so one that is its own supertype is never added.
-/

namespace ClassWeave

structure ClassGraph where
  classes : Std.HashMap BinaryName ClassHeader

/-- Queries, which may add classes. What was added before a fault stays. -/
abbrev GraphM (α : Type) := ExceptT Fault (StateM ClassGraph) α

namespace ClassGraph

def empty : ClassGraph := ⟨∅⟩

def find? (graph : ClassGraph) (name : BinaryName) : Option ClassHeader := graph.classes[name]?

def insert (graph : ClassGraph) (header : ClassHeader) : ClassGraph :=
  ⟨graph.classes.insert header.name header⟩

/-- Goes on up from a class for at most `fuel` superclasses. -/
def ancestorsFrom (graph : ClassGraph) : (fuel : Nat) → ClassHeader → List ClassHeader
  | 0, _ => []
  | fuel + 1, header =>
    match header.superclass.bind graph.find? with
    | some superclass => superclass :: graph.ancestorsFrom fuel superclass
    | none => []

/-- A class with all its superclasses, the closest first. -/
def superclasses (graph : ClassGraph) (header : ClassHeader) : List ClassHeader :=
  header :: graph.ancestorsFrom graph.classes.size header

/-- The direct supertypes of a class. An interface is never a superclass of anything, so the way to
a class leads through superclasses only. -/
def supertypes (toInterface : Bool) (header : ClassHeader) : List BinaryName :=
  header.superclass.toList ++ if toInterface then header.interfaces else []

/-- Notes the classes that have not been seen before. -/
def visit (seen : Std.HashSet BinaryName) (pending : List BinaryName) :
    List BinaryName → Std.HashSet BinaryName × List BinaryName
  | [] => (seen, pending)
  | name :: rest =>
    if seen.contains name then visit seen pending rest
    else visit (seen.insert name) (name :: pending) rest

/-- Searches on upwards from the pending classes. Each class is pending once, so there are at most
as many steps as classes. -/
def reaches (graph : ClassGraph) (target : ClassHeader) :
    (fuel : Nat) → (pending : List BinaryName) → (seen : Std.HashSet BinaryName) → Bool
  | 0, _, _ => false
  | _ + 1, [], _ => false
  | fuel + 1, name :: pending, seen =>
    if name = target.name then true
    else
      let above := match graph.find? name with
        | some header => supertypes target.isInterface header
        | none => []
      let (seen, pending) := visit seen pending above
      graph.reaches target fuel pending seen

/-- Can the first class be used where the second is expected? Both are in the graph. -/
def isAssignable (graph : ClassGraph) (source target : ClassHeader) : Bool :=
  graph.reaches target (graph.classes.size + 1) [source.name] (Std.HashSet.ofList [source.name])

/-- The common superclass of two classes of the graph. An interface shares only the root with what
is not assignable to it. -/
def meetingPoint (graph : ClassGraph) (a b : ClassHeader) : BinaryName :=
  if graph.isAssignable b a then a.name
  else if graph.isAssignable a b then b.name
  else if a.isInterface || b.isInterface then .object
  else
    match (graph.superclasses a).find? (graph.isAssignable b ·) with
    | some ancestor => ancestor.name
    | none => .object

end ClassGraph

namespace GraphM

/-- The class that a source finds under a name. -/
def load (source : ClassSource) (name : BinaryName) : GraphM ClassHeader := do
  match ← source.find name with
  | none => throw (.missingClass name)
  | some header =>
    if header.name = name then return header
    else throw (.malformed (.wrongClassLoaded name header.name))

/-- Adds a class below those in progress, which all wait for it. No more classes can wait than the
source knows. -/
def resolveBelow (source : ClassSource) :
    (fuel : Nat) → (inProgress : List BinaryName) → BinaryName → GraphM ClassHeader
  | 0, _, name => throw (.hierarchyCycle name)
  | fuel + 1, inProgress, name => do
    match (← get).find? name with
    | some header => return header
    | none =>
      if inProgress.contains name then throw (.hierarchyCycle name)
      let header ← load source name
      header.superclass.forM fun superclass => do
        let _ ← resolveBelow source fuel (name :: inProgress) superclass
      header.interfaces.forM fun interface => do
        let _ ← resolveBelow source fuel (name :: inProgress) interface
      modify (·.insert header)
      return header

/-- A class, which is added with its supertypes unless the graph has it. -/
def resolve (source : ClassSource) (name : BinaryName) : GraphM ClassHeader :=
  resolveBelow source (source.bound + 1) [] name

/-- Can the first class be used where the second is expected? -/
def isAssignable (source : ClassSource) (sub sup : BinaryName) : GraphM Bool := do
  let sub ← resolve source sub
  let sup ← resolve source sup
  return (← get).isAssignable sub sup

def commonSuperclass (source : ClassSource) (a b : BinaryName) : GraphM BinaryName := do
  let a ← resolve source a
  let b ← resolve source b
  return (← get).meetingPoint a b

end GraphM

/-- The hierarchy of the classes of a source. Each question is answered from scratch, as nothing
that was asked before can change the answer. -/
def ClassSource.hierarchy (source : ClassSource) : Hierarchy :=
  ⟨fun a b => (GraphM.commonSuperclass source a b .empty).1⟩

end ClassWeave
