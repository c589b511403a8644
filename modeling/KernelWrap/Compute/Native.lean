import KernelWrap.Compute.Grid
import KernelWrap.Path

/-!
The native side of a launch. A native runtime answers calls: it may refuse any of them, and a call
that makes an object is answered by a handle of its choice. It keeps a record of all calls with
their answers, which is what ownership and launches are judged by.
-/

namespace KernelWrap.Compute

abbrev Handle := Nat

abbrev Device := Nat

inductive Operation where
  | prepare | buildProgram | createKernel | setArgument | enqueue | wait | createQueue
  | createBuffer | releaseKernel | releaseProgram | releaseEvent
  deriving Repr, DecidableEq

namespace Operation

def name : Operation → String
  | prepare => "prepare"
  | buildProgram => "build_program"
  | createKernel => "create_kernel"
  | setArgument => "set_kernel_arg"
  | enqueue => "enqueue_nd_range"
  | wait => "wait_for_events"
  | createQueue => "create_command_queue"
  | createBuffer => "create_buffer"
  | releaseKernel => "release_kernel"
  | releaseProgram => "release_program"
  | releaseEvent => "release_event"

def all : List Operation :=
  [prepare, buildProgram, createKernel, setArgument, enqueue, wait, createQueue, createBuffer,
   releaseKernel, releaseProgram, releaseEvent]

def ofName? (s : String) : Option Operation := all.find? fun o => o.name == s

/-- A runtime may leave these calls out: then they do nothing and succeed. -/
def isOptional : Operation → Bool
  | prepare | releaseKernel | releaseProgram | releaseEvent => true
  | _ => false

end Operation

inductive NativeArgument where
  | memory (handle : Handle)
  | room (size : Nat)
  | bytes (value : List UInt8)
  deriving Repr, DecidableEq

inductive Call where
  | prepare (source name : String)
  | buildProgram (device : Device) (source : String)
  | createKernel (program : Handle) (name : String)
  | setArgument (kernel : Handle) (index : Nat) (value : NativeArgument)
  | enqueue (queue kernel : Handle) (grid : List Nat) (group : Option (List Nat))
      (waitList : List Handle)
  | wait (events : List Handle)
  | createQueue (device : Device)
  | createBuffer (size : Nat)
  | releaseKernel (kernel : Handle)
  | releaseProgram (program : Handle)
  | releaseEvent (event : Handle)
  deriving Repr, DecidableEq

def Call.operation : Call → Operation
  | prepare .. => .prepare
  | buildProgram .. => .buildProgram
  | createKernel .. => .createKernel
  | setArgument .. => .setArgument
  | enqueue .. => .enqueue
  | wait .. => .wait
  | createQueue .. => .createQueue
  | createBuffer .. => .createBuffer
  | releaseKernel .. => .releaseKernel
  | releaseProgram .. => .releaseProgram
  | releaseEvent .. => .releaseEvent

/-- Why a call is refused: a status, and for a program the log of the native compiler. -/
structure Refusal where
  status : Int
  log : String
  deriving Repr, DecidableEq, Inhabited

inductive Answer where
  | done
  | issued (handle : Handle)
  | refused (why : Refusal)
  deriving Repr, DecidableEq

structure Record where
  call : Call
  answer : Answer
  deriving Repr, DecidableEq

def Record.issued? (r : Record) : Option Handle :=
  match r.answer with
  | .issued h => some h
  | .done | .refused _ => none

def highest (rs : List Record) : Handle := (rs.filterMap Record.issued?).foldr max 0

/-- A native runtime with its records, the latest in front. Which calls it refuses and which handles
it chooses may depend on all that happened before. -/
structure Native where
  refuse : List Record → Call → Option Refusal
  choose : List Record → Call → Handle
  records : List Record

namespace Native

def start (refuse : List Record → Call → Option Refusal) : Native :=
  ⟨refuse, fun rs _ => highest rs + 1, []⟩

def perform (n : Native) (c : Call) : Except Refusal Unit × Native :=
  match n.refuse n.records c with
  | some why => (.error why, { n with records := ⟨c, .refused why⟩ :: n.records })
  | none => (.ok (), { n with records := ⟨c, .done⟩ :: n.records })

def issue (n : Native) (c : Call) : Except Refusal Handle × Native :=
  match n.refuse n.records c with
  | some why => (.error why, { n with records := ⟨c, .refused why⟩ :: n.records })
  | none =>
    (.ok (n.choose n.records c),
      { n with records := ⟨c, .issued (n.choose n.records c)⟩ :: n.records })

/-- A call whose refusal changes nothing for the caller, as all releases are. -/
def attempt (n : Native) (c : Call) : Native := (n.perform c).2

def calls (n : Native) : List Call := (n.records.map Record.call).reverse

end Native

inductive KernelError where
  | noGrid (size : Extent)
  | build (kernel log : String)
  | deviceMismatch (kernel : String) (built requested : Device)
  | source (path : Path)
  | native (operation : Operation) (status : Int)
  deriving Repr, DecidableEq

def KernelError.message : KernelError → String
  | noGrid size => s!"invalid work dimension for global size {size.text}"
  | build kernel log => s!"cannot build kernel `{kernel}`:\n{log}"
  | deviceMismatch kernel built requested =>
    s!"kernel `{kernel}` was built for Device({built}) but dispatched on Device({requested})"
  | source path => s!"cannot read kernel source {path}"
  | native operation status => s!"{operation.name} failed with status {status}"

end KernelWrap.Compute
