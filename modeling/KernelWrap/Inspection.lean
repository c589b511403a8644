import KernelWrap.Generator

/-!
Inspection of one source file: its path, its imports, its kernels with their arguments, and the
declarations that were skipped, as one JSON record.
-/

namespace KernelWrap

open Declaration

def Passing.text : Passing → String
  | buffer => "global"
  | localSize => "local"
  | value => "by_value"

def Argument.json (a : Argument) : Json :=
  .record [("index", .number a.index), ("identifier", .text a.identifier),
    ("dialect_type", .text a.dialectType), ("vector_width", .number a.vectorWidth),
    ("qualifier", .text a.passing.text), ("is_pointer", .bool a.isPointer),
    ("mapped_host_type", .text a.hostType)]

def Kernel.json (k : Kernel) : Json :=
  .record [("name", .text k.name), ("line", .number k.line),
    ("arguments", .list (k.arguments.map Argument.json))]

structure Inspection where
  path : Path
  analysis : Analysis
  deriving Repr, DecidableEq

namespace Inspection

def json (i : Inspection) : Json :=
  .record [("path", .text i.path.display), ("imports", .texts i.analysis.imports),
    ("kernels", .list (i.analysis.kernels.map Kernel.json)),
    ("skipped", .texts (i.analysis.skipped.map ParseError.display))]

def ofFile (d : Disk) (file : Path) (strict : Bool) : Except GenerateError Inspection :=
  match d.readText file with
  | .error e => .error (.unread file e)
  | .ok text =>
    match (Analysis.ofText text.toList).check strict with
    | .error e => .error (.malformed file e)
    | .ok a => .ok ⟨file, a⟩

end Inspection

end KernelWrap
