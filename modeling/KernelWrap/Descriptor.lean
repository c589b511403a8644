import KernelWrap.Declaration.Signature
import KernelWrap.HostType

/-!
Kernel descriptors: what wrapper generation needs to know of a kernel. Each argument has the
native index of its position, the way it is handed to the native call, and its host type.
-/

namespace KernelWrap

open Declaration

/-- How an argument is handed over: by the handle of device memory, as a length of local memory,
or as the bytes of its value. -/
inductive Passing where
  | buffer | localSize | value
  deriving Repr, DecidableEq

def Passing.ofSpace : Option AddressSpace → Passing
  | some .globalMem | some .constantMem => buffer
  | some .localMem => localSize
  | some .privateMem | some .readOnly | some .writeOnly | some .readWrite | none => value

structure Argument where
  index : Nat
  identifier : String
  dialectType : String
  vectorWidth : Nat
  passing : Passing
  isPointer : Bool
  hostType : String
  deriving Repr, DecidableEq

def Argument.ofParameter (index : Nat) (p : ParameterSignature) : Argument where
  index := index
  identifier := p.name
  dialectType := p.dataType
  vectorWidth := p.vectorWidth
  passing := .ofSpace p.space
  isPointer := p.isPointer
  hostType := KernelWrap.hostType p.dataType p.vectorWidth

def Argument.parameterName (a : Argument) : String :=
  match a.passing with
  | .localSize => a.identifier ++ "_length"
  | .buffer | .value => a.identifier

structure Kernel where
  name : String
  line : Nat
  arguments : List Argument
  deriving Repr, DecidableEq

def Kernel.ofSignature (s : KernelSignature) : Kernel :=
  ⟨s.name, s.line, s.parameters.mapIdx Argument.ofParameter⟩

end KernelWrap
