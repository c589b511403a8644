import KernelWrap.Source.Header
import KernelWrap.Source.Directive
import KernelWrap.Source.LineMap
import KernelWrap.Descriptor

/-!
The analysis of a kernel source: its imports, its kernels, and the declarations that were skipped.
Imports are read from the text as it is, kernels from the stripped and normalized text, and all
lines refer to the text as it is.
-/

namespace KernelWrap

open Declaration Source

structure Analysis where
  imports : List String
  kernels : List Kernel
  skipped : List ParseError
  deriving Repr, DecidableEq

namespace Analysis

def ofText (text : List Char) : Analysis :=
  let stripped := stripWithLines text
  let found := matchText (normalize stripped.1)
  { imports := Source.imports text
    kernels := found.kernels.map fun k =>
      .ofSignature { k with line := stripped.2.sourceLine k.line }
    skipped := found.skipped.map fun e => { e with line := stripped.2.sourceLine e.line } }

def check (a : Analysis) (strict : Bool) : Except ParseError Analysis :=
  match strict, a.skipped with
  | true, e :: _ => .error e
  | _, _ => .ok a

end Analysis

end KernelWrap
