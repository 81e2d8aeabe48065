/-!
# Sets of offsets

Offsets gathered in any order and any number of times, listed once each in ascending order.
-/

namespace ClassWeave

namespace Offsets

/-- Leaves one of each run of equal offsets. -/
def dropRepeats : List Nat → List Nat
  | [] => []
  | offset :: rest => (rest.foldl
      (fun (kept : List Nat × Nat) next =>
        if next == kept.2 then kept else (next :: kept.1, next)) ([offset], offset)).1.reverse

def sorted (offsets : List Nat) : List Nat := dropRepeats offsets.mergeSort

end Offsets

end ClassWeave
