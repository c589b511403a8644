import KernelWrap.Declaration.Grammar
import KernelWrap.Declaration.VectorWidth

/-!
Kernel signatures: the records read off declaration trees, and the matching of a whole text line
by line. A line without a `kernel` keyword has no signature; one with the keyword either declares
a kernel from its first such keyword on, or is skipped with an error that points at the token
which cannot continue the declaration.
-/

namespace KernelWrap.Declaration

open Text

structure ParameterSignature where
  name : String
  space : Option AddressSpace
  isConst : Bool
  isVolatile : Bool
  dataType : String
  vectorWidth : Nat
  isPointer : Bool
  deriving Repr, DecidableEq

structure KernelSignature where
  name : String
  line : Nat
  parameters : List ParameterSignature
  deriving Repr, DecidableEq

def BaseType.typeName : BaseType → String
  | named name => String.ofList name
  | void => "void"
  | unsigned none => "uint"
  | unsigned (some word) => "u" ++ String.ofList word

namespace Parameter

def spaces (p : Parameter) : List AddressSpace :=
  p.marks.filterMap fun
    | .space s => some s
    | .qualifier _ => none

def allQualifiers (p : Parameter) : List TypeQualifier :=
  (p.marks.filterMap fun
    | .qualifier q => some q
    | .space _ => none) ++ p.qualifiers ++ p.pointer.getD []

def signature (p : Parameter) : ParameterSignature where
  name := String.ofList p.name
  space := p.spaces.getLast?
  isConst := p.allQualifiers.contains .const
  isVolatile := p.allQualifiers.contains .volatile
  dataType := (splitWidth p.base.typeName).1
  vectorWidth := (splitWidth p.base.typeName).2
  isPointer := p.pointer.isSome

end Parameter

def DeclaredKernel.signature (d : DeclaredKernel) (line : Nat) : KernelSignature :=
  ⟨String.ofList d.name, line, d.parameters.map Parameter.signature⟩

/-- A declaration that could not be read: its line, the column of the offending token counted in
bytes from 1, and that token, or none at the end of the line. -/
structure ParseError where
  line : Nat
  column : Nat
  fault : Fault
  found : Option String
  deriving Repr, DecidableEq

namespace ParseError

def message (e : ParseError) : String :=
  e.fault.message ++ ", found " ++
    match e.found with
    | some token => "`" ++ token ++ "`"
    | none => "end of line"

def display (e : ParseError) : String :=
  s!"line {e.line}, column {e.column}: {e.message}"

def ofFailure (line : Nat) (ts : List Token) (f : Failure) : ParseError :=
  match f.left with
  | t :: _ => ⟨line, t.offset + 1, f.fault, some (String.ofList t.text)⟩
  | [] => ⟨line, (ts.getLast?.map Token.stop).getD 0 + 1, f.fault, none⟩

end ParseError

def fromKernel (ts : List Token) : List Token := ts.dropWhile fun t => t.kind != .kernel

def readTokens (line : Nat) (ts : List Token) : Except ParseError (Option KernelSignature) :=
  match fromKernel ts with
  | [] => .ok none
  | t :: rest =>
    match readDeclaration (t :: rest) with
    | .ok (d, _) => .ok (some (d.signature line))
    | .error f => .error (.ofFailure line ts f)

def readLine (text : List Char) (line : Nat) : Except ParseError (Option KernelSignature) :=
  readTokens line (tokenize text)

structure Matched where
  kernels : List KernelSignature
  skipped : List ParseError
  deriving Repr, DecidableEq

def Matched.add (r : Except ParseError (Option KernelSignature)) (m : Matched) : Matched :=
  match r with
  | .ok (some k) => { m with kernels := k :: m.kernels }
  | .ok none => m
  | .error e => { m with skipped := e :: m.skipped }

def matchLines (line : Nat) : List (List Char) → Matched
  | [] => ⟨[], []⟩
  | l :: ls => (matchLines (line + 1) ls).add (readLine l line)

def matchText (s : List Char) : Matched := matchLines 1 (splitLines s)

end KernelWrap.Declaration
