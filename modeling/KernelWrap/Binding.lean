import KernelWrap.Analysis
import KernelWrap.Host.Layout
import KernelWrap.Host.PathReader
import KernelWrap.Host.TokenStream
import KernelWrap.Wrapper

/-!
Bindings: the host code for a whole source unit, for any reader of its paths and types. Binding fails
with the first thing that cannot be put into host code, in the order support path, imports, kernels,
and the arguments of a kernel.
-/

namespace KernelWrap

open Host

inductive BindError where
  | name (name : String)
  | support (path : String)
  | import (path : String) (source : Path)
  | type (type argument kernel : String)
  /-- The host language cannot read the generated items back. -/
  | unreadable
  /-- An error in the wrapper of a kernel. -/
  | kernel (name : String) (cause : BindError)
  deriving Repr, DecidableEq

namespace BindError

def message : BindError → String
  | name n => s!"`{n}` is no name"
  | support p => s!"invalid runtime path `{p}`"
  | .import p source => s!"invalid `using [{p}]` directive in {source}"
  | type t a k => s!"cannot parse host type `{t}` of argument `{a}` in kernel `{k}`"
  | unreadable => "cannot parse generated bindings"
  | kernel n cause => s!"cannot generate bindings for {n}: " ++ cause.message

def isFatal : BindError → Bool
  | name _ => true
  | kernel _ cause => cause.isFatal
  | _ => false

end BindError

def hostName (s : String) : Except BindError Name :=
  match Name.ofDialect? s with
  | some n => .ok n
  | none => .error (.name s)

def Slot.ofArgument (r : Reader) (kernel : String) (a : Argument) (name : Name) :
    Except BindError Slot :=
  match r.type? a.hostType with
  | some t => .ok ⟨a.index, a.passing, name, t⟩
  | none => .error (.type a.hostType a.identifier kernel)

def readSlots (r : Reader) (kernel : String) : List (Argument × Name) → Except BindError (List Slot)
  | [] => .ok []
  | (a, n) :: rest => do
    let t ← Slot.ofArgument r kernel a n
    return t :: (← readSlots r kernel rest)

def hostNames : List String → Except BindError (List Name)
  | [] => .ok []
  | s :: rest => do
    let n ← hostName s
    return n :: (← hostNames rest)

def Wrapper.ofKernel (k : Kernel) (r : Reader := pathReader) : Except BindError Wrapper := do
  let name ← hostName k.name
  let names ← hostNames (parameterNames [] k.arguments)
  let found ← readSlots r k.name (k.arguments.zip names)
  return ⟨name, k.name, k.line, found⟩

def readImports (r : Reader) (source : Path) : List String → Except BindError (List Import)
  | [] => .ok []
  | s :: rest =>
    match r.imported? s with
    | some i => do return i :: (← readImports r source rest)
    | none => .error (.import s source)

def readWrappers (r : Reader) : List Kernel → Except BindError (List Wrapper)
  | [] => .ok []
  | k :: rest =>
    match Wrapper.ofKernel k r with
    | .ok w => do return w :: (← readWrappers r rest)
    | .error e => .error (.kernel k.name e)

def readSupport (path : String) (r : Reader := pathReader) : Except BindError Support :=
  match r.support? path with
  | some p => .ok ⟨p⟩
  | none => .error (.support path)

structure Binding where
  support : Support
  imports : List Import
  wrappers : List Wrapper
  unit : SourceUnit

namespace Binding

def ofAnalysis (path : String) (u : SourceUnit) (a : Analysis) (r : Reader := pathReader) :
    Except BindError Binding := do
  let support ← readSupport path r
  let imports ← readImports r u.path a.imports
  return ⟨support, imports, ← readWrappers r a.kernels, u⟩

def importItem (i : Import) : Item := .imports [.allow ["unused_imports"]] i

def items (b : Binding) : List Item :=
  importItem ⟨b.support.path.child "types", true⟩ :: b.imports.map importItem ++
    b.wrappers.flatMap fun w => w.items b.support b.unit

def isReadable (b : Binding) : Bool :=
  b.support.path.importable && (b.wrappers.isEmpty || b.support.path.namesType)

def header (source : Path) : String :=
  String.join ((Text.endedLines
    s!"@generated by kernelgen from {source}\nDo not edit by hand.".toList).map fun l =>
      "// " ++ String.ofList l ++ "\n") ++ "\n"

def artifact (b : Binding) : Except BindError String :=
  if b.isReadable then .ok (header b.unit.path ++ itemText b.items) else .error .unreadable

end Binding

def renderUnit (path : String) (u : SourceUnit) (a : Analysis) (r : Reader := pathReader) :
    Except BindError String := do
  (← Binding.ofAnalysis path u a r).artifact

end KernelWrap
