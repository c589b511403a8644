import KernelWrap.Compute.KernelObject

/-!
Launches and their events. A launch builds the kernel for the device of its queue, sets the native
arguments one after the other, and enqueues the kernel; the first of these that fails ends it. The
event of a launch may be shared: it is released when its last holder drops it.
-/

namespace KernelWrap.Compute

structure Queue where
  handle : Handle
  device : Device
  deriving Repr, DecidableEq

/-- A native event and the place where its holders are counted. -/
structure Event where
  handle : Handle
  share : Nat
  deriving Repr, DecidableEq

structure Context where
  native : Native
  holders : List Nat

namespace Context

def start (refuse : List Record → Call → Option Refusal) : Context := ⟨.start refuse, []⟩

def perform (c : Context) (call : Call) : Except KernelError Unit × Context :=
  match c.native.perform call with
  | (.error why, n) => (.error (.native call.operation why.status), { c with native := n })
  | (.ok (), n) => (.ok (), { c with native := n })

def issue (c : Context) (call : Call) : Except KernelError Handle × Context :=
  match c.native.issue call with
  | (.error why, n) => (.error (.native call.operation why.status), { c with native := n })
  | (.ok h, n) => (.ok h, { c with native := n })

def createQueue (c : Context) (device : Device) : Except KernelError Queue × Context :=
  match c.issue (.createQueue device) with
  | (.error e, c) => (.error e, c)
  | (.ok h, c) => (.ok ⟨h, device⟩, c)

def own (c : Context) (handle : Handle) : Event × Context :=
  (⟨handle, c.holders.length⟩, { c with holders := c.holders ++ [1] })

def holdersOf (c : Context) (e : Event) : Nat := c.holders[e.share]?.getD 0

def clone (c : Context) (e : Event) : Context :=
  { c with holders := c.holders.set e.share (c.holdersOf e + 1) }

def drop (c : Context) (e : Event) : Context :=
  match c.holdersOf e with
  | 0 => c
  | 1 => { native := c.native.attempt (.releaseEvent e.handle), holders := c.holders.set e.share 0 }
  | n + 2 => { c with holders := c.holders.set e.share (n + 1) }

def cloneAll (c : Context) (es : List Event) : Context := es.foldl clone c

def dropAll (c : Context) (es : List Event) : Context := es.foldl drop c

def wait (c : Context) (e : Event) : Except KernelError Unit × Context := c.perform (.wait [e.handle])

def waitAll (c : Context) (es : List Event) : Except KernelError Unit × Context :=
  if es.isEmpty then (.ok (), c) else c.perform (.wait (es.map Event.handle))

def bind (c : Context) (k : KernelObject) (q : Queue) :
    Except KernelError Handle × KernelObject × Context :=
  match k.build q.device c.native with
  | (r, k, n) => (r, k, { c with native := n })

def setArguments (c : Context) (kernel : Handle) :
    List (Nat × NativeArgument) → Except KernelError Unit × Context
  | [] => (.ok (), c)
  | (i, a) :: rest =>
    match c.perform (.setArgument kernel i a) with
    | (.error e, c) => (.error e, c)
    | (.ok (), c) => c.setArguments kernel rest

def enqueue (c : Context) (kernel : Handle) (q : Queue) (grid group : Extent)
    (waitList : List Event) : Except KernelError Event × Context :=
  match grid.dimension? with
  | none => (.error (.noGrid grid), c)
  | some d =>
    match c.issue (.enqueue q.handle kernel (grid.axes.take d) (group.group? d)
        (waitList.map Event.handle)) with
    | (.error e, c) => (.error e, c)
    | (.ok h, c) =>
      match c.own h with
      | (e, c) => (.ok e, c)

def dispatch (c : Context) (k : KernelObject) (q : Queue) (arguments : List (Nat × NativeArgument))
    (grid group : Extent) (waitList : List Event) :
    Except KernelError Event × KernelObject × Context :=
  match c.bind k q with
  | (.error e, k, c) => (.error e, k, c)
  | (.ok kernel, k, c) =>
    match c.setArguments kernel arguments with
    | (.error e, c) => (.error e, k, c)
    | (.ok (), c) =>
      match c.enqueue kernel q grid group waitList with
      | (r, c) => (r, k, c)

def finish (c : Context) (e : Event) : Except KernelError Unit × Context :=
  match c.wait e with
  | (r, c) => (r, c.drop e)

end Context

end KernelWrap.Compute
