import KernelWrap.Compute.Launch
import KernelWrap.Wrapper

/-! What generated methods do when they are called. Expressions have values; only the calls at the
head of a statement act on the native object and its context. A method ends with the value of its
last statement or with the first error that a statement propagates, and then drops what it has
bound. Code that makes no sense has no outcome. -/

namespace KernelWrap
open Host Compute

inductive Value where
  | unit
  | object
  | base
  | kernel (handle : Handle)
  | queue (q : Queue)
  | buffer (memory : Handle)
  | memory (handle : Handle)
  | number (n : Nat)
  | sizes (ns : List Nat)
  | data (bytes : List UInt8)
  | address (bytes : List UInt8)
  | argument (a : NativeArgument)
  | events (es : List Event)
  | event (e : Event)
  deriving Repr, DecidableEq

/-- Sizes are words of 64 bits, and products of sizes wrap around. -/
def wordSize : Nat := UInt64.size

structure Target where
  support : Support
  size : Ty → Nat

abbrev Locals := List (Name × Value)

structure Machine where
  object : KernelObject
  context : Context

/-- An error or a value and the machine after it, or nothing for code that makes no sense. -/
abbrev Effect := Option (Except KernelError Value × Machine)

abbrev Methods := String → List Value → Machine → Effect

section Values

def bound? (ls : Locals) (p : NamePath) : Option Value :=
  match p with
  | ⟨false, [n]⟩ => ls.lookup n
  | _ => none

def sizes? : List Value → Option (List Nat)
  | [] => some []
  | .number n :: vs => (sizes? vs).map (n :: ·)
  | _ => none

def extent? : Value → Option Extent
  | .sizes [x, y, z] => some ⟨x, y, z⟩
  | _ => none

namespace Value

def field? : Value → String → Option Value
  | object, n => if n = "base" then some base else none
  | _, _ => none

def component? : Value → Nat → Option Value
  | sizes ns, i => ns[i]?.map number
  | _, _ => none

def times? : Value → Value → Option Value
  | number a, number b => some (number (a * b % wordSize))
  | _, _ => none

def read? : Value → String → List Value → Option Value
  | buffer m, n, [] => if n = "mem" then some (memory m) else none
  | address bs, n, [] => if n = "cast" then some (address bs) else none
  | _, _, _ => none

def addressed? : Value → NamePath → Option Value
  | data bs, p => if p = .absoluteOf ["core", "ptr", "addr_of"] then some (address bs) else none
  | _, _ => none

end Value

namespace Target

def kernelArg (h : Target) (name : String) : NamePath := (h.support.path.child "KernelArg").child name

def called? (h : Target) (p : NamePath) : List Ty → List Value → Option Value
  | [], [.memory m] => if p = h.kernelArg "Mem" then some (.argument (.memory m)) else none
  | [t], [] =>
    if p = .absoluteOf ["core", "mem", "size_of"] then some (.number (h.size t)) else none
  | _, _ => none

/-- A native argument in braces. The bytes at an address are taken as far as the size goes. -/
def recorded? (h : Target) (p : NamePath) : List (String × Value) → Option Value
  | [(a, .number n)] =>
    if p = h.kernelArg "Local" ∧ a = "size" then some (.argument (.room n)) else none
  | [(a, .number n), (b, .address bs)] =>
    if p = h.kernelArg "Bytes" ∧ a = "size" ∧ b = "value" then
      some (.argument (.bytes (bs.take n)))
    else none
  | _ => none

mutual

def value? (h : Target) (ls : Locals) : Expr → Option Value
  | .path p args => if args.isEmpty then bound? ls p else none
  | .number n => some (.number n)
  | .field e n => (h.value? ls e).bind fun v => v.field? n
  | .index e i => (h.value? ls e).bind fun v => v.component? i
  | .array es => ((h.values? ls es).bind sizes?).map .sizes
  | .product l r => (h.value? ls l).bind fun v => (h.value? ls r).bind v.times?
  | .call (.path p ts) es => (h.values? ls es).bind (h.called? p ts)
  | .method e n es => (h.value? ls e).bind fun v => (h.values? ls es).bind (v.read? n)
  | .record p fs => (h.fieldValues? ls fs).bind (h.recorded? p)
  | .macroCall p n => (ls.lookup n).bind fun v => v.addressed? p
  | _ => none

def values? (h : Target) (ls : Locals) : List Expr → Option (List Value)
  | [] => some []
  | e :: es => (h.value? ls e).bind fun v => (h.values? ls es).map (v :: ·)

def fieldValues? (h : Target) (ls : Locals) : List (String × Expr) → Option (List (String × Value))
  | [] => some []
  | (n, e) :: fs => (h.value? ls e).bind fun v => (h.fieldValues? ls fs).map ((n, v) :: ·)

end

end Target

end Values

section Effects

def Value.act (ms : Methods) : Value → String → List Value → Machine → Effect
  | object, n, vs, m => ms n vs m
  | base, n, [queue q], m =>
    if n = "bind" then
      match m.context.bind m.object q with
      | (r, k, c) => some (r.map .kernel, ⟨k, c⟩)
    else none
  | kernel x, n, [number i, argument a], m =>
    if n = "set_arg" then
      match m.context.perform (.setArgument x i a) with
      | (r, c) => some (r.map fun _ => unit, { m with context := c })
    else none
  | kernel x, n, [queue q, g, l, events es], m =>
    if n = "enqueue" then
      match extent? g, extent? l with
      | some g, some l =>
        match m.context.enqueue x q g l es with
        | (r, c) => some (r.map .event, { m with context := c })
      | _, _ => none
    else none
  | event e, n, [], m =>
    if n = "wait" then
      match m.context.wait e with
      | (r, c) => some (r.map fun _ => unit, { m with context := c })
    else none
  | _, _, _, _ => none

def Machine.drop (m : Machine) : Value → Machine
  | .event e => { m with context := m.context.drop e }
  | _ => m

namespace Target

def effect (h : Target) (ms : Methods) (ls : Locals) : Expr → Machine → Effect
  | .method e n es, m =>
    (h.value? ls e).bind fun v => (h.values? ls es).bind fun vs => v.act ms n vs m
  | _, _ => none

def run (h : Target) (ms : Methods) : List Stmt → Locals → Machine → Effect
  | [.result e], ls, m => h.effect ms ls e m
  | .bind _ n (.propagate e) :: rest, ls, m =>
    match h.effect ms ls e m with
    | some (.ok v, m) =>
      (h.run ms rest ((.plain n, v) :: ls) m).map fun r => (r.1, r.2.drop v)
    | o => o
  | .run (.propagate e) :: rest, ls, m =>
    match h.effect ms ls e m with
    | some (.ok _, m) => h.run ms rest ls m
    | o => o
  | _, _, _ => none

def call (h : Target) (ms : Methods) (f : Function) (vs : List Value) (m : Machine) : Effect :=
  if vs.length = f.params.length then
    h.run ms f.body ((.plain "self", .object) :: (f.params.map Param.name).zip vs) m
  else none

end Target

def Wrapper.own (w : Wrapper) (h : Target) : Methods := fun n vs m =>
  if n = "dispatch" then h.call (fun _ _ _ => none) (w.dispatch h.support) vs m else none

end Effects

end KernelWrap
