import KernelWrap.Descriptor
import KernelWrap.Host.Syntax
import KernelWrap.SourceUnit

/-!
Wrappers: the host code that makes a kernel callable. A wrapper has one slot for each argument of
its kernel. The dispatch method sets the slots in order and enqueues the kernel; for each of one,
two and three dimensions there is a run method that waits and one that does not, and both take the
parameters of the slots and hand them to the dispatch method, with the grid filled up by zeros.
-/

namespace KernelWrap

open Host

def reservedNames : List String :=
  ["queue", "global", "local", "wait_list", "event", "bound_kernel", "device"]

def Argument.freeName (a : Argument) : String :=
  if reservedNames.contains a.parameterName then a.parameterName ++ "_arg" else a.parameterName

/-- The parameter names of arguments when `used` are taken: a name that is taken gets the index
of its argument. -/
def parameterNames (used : List String) : List Argument → List String
  | [] => []
  | a :: as =>
    let n := if used.contains a.freeName then a.freeName ++ "_" ++ toString a.index else a.freeName
    n :: parameterNames (n :: used) as

/-- An argument of a wrapper: the native index, the way it is handed over, the name of its
parameter and its host type. -/
structure Slot where
  index : Nat
  passing : Passing
  name : Name
  type : Ty
  deriving Repr

structure Wrapper where
  name : Name
  kernelName : String
  line : Nat
  slots : List Slot
  deriving Repr

def sizeOf (t : Ty) : Expr :=
  .call (.path (.absoluteOf ["core", "mem", "size_of"]) [t]) []

def addressOf (n : Name) : Expr :=
  .method (.macroCall (.absoluteOf ["core", "ptr", "addr_of"]) n) "cast" []

def outcome (result error : Ty) : Ty := .named (.absoluteOf ["core", "result", "Result"]) [result, error]

structure Support where
  path : NamePath

namespace Support

def type (s : Support) (name : String) : Ty := .named (s.path.child name) []

def kernelError (s : Support) : Ty := s.type "KernelError"

def event (s : Support) : Ty := s.type "Event"

end Support

namespace Slot

def value (t : Slot) : Expr := .name t.name

def param (s : Support) (t : Slot) : Param where
  name := t.name
  type :=
    match t.passing with
    | .buffer => .ref none (.named (s.path.child "Buffer") [t.type])
    | .localSize => .named (.single (.plain "usize")) []
    | .value => t.type

def native (s : Support) (t : Slot) : Expr :=
  let kind (name : String) : NamePath := (s.path.child "KernelArg").child name
  match t.passing with
  | .buffer => .call (.path (kind "Mem") []) [.method t.value "mem" []]
  | .localSize => .record (kind "Local") [("size", .product t.value (sizeOf t.type))]
  | .value => .record (kind "Bytes") [("size", sizeOf t.type), ("value", addressOf t.name)]

def set (s : Support) (t : Slot) : Stmt :=
  .run (.propagate (.method (.var "bound_kernel") "set_arg" [.number t.index, t.native s]))

end Slot

namespace Wrapper

def usize : Ty := .named (.single (.plain "usize")) []

def queueParam (s : Support) : Param := ⟨.plain "queue", .ref none (s.type "CommandQueue")⟩

def gridParams (n : Nat) : List Param :=
  [⟨.plain "global", .array usize n⟩, ⟨.plain "local", .array usize n⟩]

def waitParam (s : Support) : Param := ⟨.plain "wait_list", .ref none (.slice s.event)⟩

def launchParams (w : Wrapper) (s : Support) (n : Nat) : List Param :=
  queueParam s :: w.slots.map (Slot.param s) ++ gridParams n ++ [waitParam s]

def dispatch (w : Wrapper) (s : Support) : Function where
  attributes := []
  exported := false
  name := "dispatch"
  receiver := .exclusive
  params := w.launchParams s 3
  endComma := true
  returns := outcome s.event s.kernelError
  body :=
    .bind (!w.slots.isEmpty) "bound_kernel"
        (.propagate (.method (.field (.var "self") "base") "bind" [.var "queue"])) ::
      w.slots.map (Slot.set s) ++
      [.result (.method (.var "bound_kernel") "enqueue"
        [.var "queue", .var "global", .var "local", .var "wait_list"])]

def padded (n : Nat) (size : String) : Expr :=
  .array ((List.range 3).map fun axis => if axis < n then .index (.var size) axis else .number 0)

def forward (w : Wrapper) (n : Nat) : Expr :=
  .method (.var "self") "dispatch"
    (.var "queue" :: w.slots.map Slot.value ++
      [padded n "global", padded n "local", .var "wait_list"])

def run (w : Wrapper) (s : Support) (n : Nat) : Function where
  attributes := [.doc s!" Launches over a {n}-dimensional grid and waits for completion. A zero local size lets the runtime choose." false]
  exported := true
  name := s!"run_{n}d"
  receiver := .exclusive
  params := w.launchParams s n
  endComma := true
  returns := outcome .unit s.kernelError
  body := [.bind false "event" (.propagate (w.forward n)), .result (.method (.var "event") "wait" [])]

def runAsync (w : Wrapper) (s : Support) (n : Nat) : Function where
  attributes := [.doc s!" Launches over a {n}-dimensional grid and returns the completion event without waiting." false]
  exported := true
  name := s!"run_{n}d_async"
  receiver := .exclusive
  params := w.launchParams s n
  endComma := true
  returns := outcome s.event s.kernelError
  body := [.result (w.forward n)]

def create (s : Support) : Function where
  attributes := []
  exported := true
  name := "new"
  receiver := .none
  params := [⟨.plain "context", .ref none (s.type "Context")⟩]
  endComma := false
  returns := outcome (.named (.single (.plain "Self")) []) s.kernelError
  body :=
    [.result (.call (.path (.absoluteOf ["core", "result", "Result", "Ok"]) [])
      [.record (.single (.plain "Self"))
        [("base", .propagate (.call
          (.path ((s.path.child "KernelBase").child "new") [.named (.single (.plain "Self")) []])
          [.var "context"]))]])]

def base (s : Support) : Function where
  attributes := []
  exported := true
  name := "base"
  receiver := .shared
  params := []
  endComma := false
  returns := .ref none (s.type "KernelBase")
  body := [.result (.ref (.field (.var "self") "base"))]

def build (s : Support) : Function where
  attributes := [.doc " Builds the program for `device` and creates the kernel object." true]
  exported := true
  name := "build"
  receiver := .exclusive
  params := [⟨.plain "device", s.type "Device"⟩]
  endComma := false
  returns := outcome .unit s.kernelError
  body :=
    [.result (.method (.method (.field (.var "self") "base") "build" [.var "device"]) "map"
      [.ignoring .unit])]

def sourceOf (s : Support) (u : SourceUnit) : Expr :=
  let kind (name : String) : Expr := .path ((s.path.child "KernelSource").child name) []
  if u.embedded then .call (kind "Embedded") [.text u.text]
  else .call (kind "resolve") [.text u.assetText]

def kernelSource (s : Support) (u : SourceUnit) : Function where
  attributes := []
  exported := false
  name := "kernel_source"
  receiver := .none
  params := []
  endComma := false
  returns := s.type "KernelSource"
  body := [.result (sourceOf s u)]

def staticText : Ty := .ref (some "static") (.named (.single (.plain "str")) [])

def description (w : Wrapper) (s : Support) (u : SourceUnit) : List Member :=
  [.const "KERNEL_NAME" staticText w.kernelName,
   .const "KERNEL_PATH" staticText u.resolved.display,
   .const "ORIGINAL_PATH" staticText u.path.display,
   .function (kernelSource s u)]

def methods (w : Wrapper) (s : Support) : List Function :=
  [create s, base s, build s, w.dispatch s] ++
    [1, 2, 3].flatMap fun n => [w.run s n, w.runAsync s n]

def items (w : Wrapper) (s : Support) (u : SourceUnit) : List Item :=
  [.struct
      [.doc s!" Wrapper for kernel `{w.kernelName}` declared at {u.path.display}:{w.line}." false,
       .allow ["non_camel_case_types"]]
      w.name [("base", s.type "KernelBase")],
   .implement [] (some (s.path.child "KernelWrapper")) w.name (w.description s u),
   .implement [.allow ["clippy", "too_many_arguments"]] none w.name
     ((w.methods s).map .function)]

end Wrapper

end KernelWrap
