/-!
Launch grids. A size has a component for each of three axes; a grid has one, two or three axes, and
those it has are the leading components that are not zero. A size with a zero in front of another
component, or with no component at all, is no grid.
-/

namespace KernelWrap.Compute

structure Extent where
  x : Nat
  y : Nat
  z : Nat
  deriving Repr, DecidableEq, Inhabited

namespace Extent

def axes (e : Extent) : List Nat := [e.x, e.y, e.z]

def text (e : Extent) : String := s!"[{e.x}, {e.y}, {e.z}]"

def dimension? : Extent → Option Nat
  | ⟨_ + 1, 0, 0⟩ => some 1
  | ⟨_ + 1, _ + 1, 0⟩ => some 2
  | ⟨_ + 1, _ + 1, _ + 1⟩ => some 3
  | _ => none

def group? (e : Extent) (n : Nat) : Option (List Nat) :=
  let size := e.axes.take n
  if size.all (· == 0) then none else some size

end Extent

end KernelWrap.Compute
