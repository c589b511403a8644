import KernelWrap.Host.Name

/-!
The part of the host language that wrappers are written in, as syntax trees: types, expressions,
statements and items.
-/

namespace KernelWrap.Host

structure NamePath where
  absolute : Bool
  segments : List Name
  deriving Repr, DecidableEq

namespace NamePath

def child (p : NamePath) (name : String) : NamePath :=
  { p with segments := p.segments ++ [.plain name] }

def single (n : Name) : NamePath := ⟨false, [n]⟩

def absoluteOf (names : List String) : NamePath := ⟨true, names.map .plain⟩

end NamePath

inductive Ty where
  | named (path : NamePath) (args : List Ty)
  | infer
  | ref (lifetime : Option String) (target : Ty)
  | array (element : Ty) (length : Nat)
  | slice (element : Ty)
  | unit
  deriving Repr

inductive Expr where
  | path (path : NamePath) (args : List Ty)
  | text (value : String)
  | number (value : Nat)
  | unit
  | field (object : Expr) (name : String)
  | index (array : Expr) (position : Nat)
  | call (function : Expr) (args : List Expr)
  | method (receiver : Expr) (name : String) (args : List Expr)
  | propagate (result : Expr)
  | ref (target : Expr)
  | product (left right : Expr)
  | array (elements : List Expr)
  | record (path : NamePath) (fields : List (String × Expr))
  | macroCall (path : NamePath) (arg : Name)
  /-- A function that ignores its argument. -/
  | ignoring (body : Expr)
  deriving Repr

namespace Expr

def name (n : Name) : Expr := path (.single n) []

def var (s : String) : Expr := name (.plain s)

end Expr

inductive Stmt where
  | bind (changing : Bool) (name : String) (value : Expr)
  | run (effect : Expr)
  | result (value : Expr)
  deriving Repr

inductive Attribute where
  | allow (lint : List String)
  | doc (text : String) (raw : Bool)
  deriving Repr, DecidableEq

inductive Receiver where
  | none | shared | exclusive
  deriving Repr, DecidableEq

structure Param where
  name : Name
  type : Ty
  deriving Repr

structure Function where
  attributes : List Attribute
  exported : Bool
  name : String
  receiver : Receiver
  params : List Param
  /-- Whether a comma stands behind the last parameter. -/
  endComma : Bool
  returns : Ty
  body : List Stmt
  deriving Repr

inductive Member where
  | const (name : String) (type : Ty) (value : String)
  | function (f : Function)
  deriving Repr

structure Import where
  path : NamePath
  all : Bool
  deriving Repr, DecidableEq

inductive Item where
  | imports (attributes : List Attribute) (tree : Import)
  | struct (attributes : List Attribute) (name : Name) (fields : List (String × Ty))
  | implement (attributes : List Attribute) (interface : Option NamePath) (name : Name)
      (members : List Member)
  deriving Repr

end KernelWrap.Host
