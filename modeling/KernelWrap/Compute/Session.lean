import KernelWrap.Compute.Launch
import KernelWrap.HostType

/-!
Sessions: sequences of steps on one context whose queues, buffers, kernels and events have names.
What is stored under a name that is taken drops the object before it, after the new one was made;
at the end of a session the kernels are dropped and then the events, both in the order of names.
-/

namespace KernelWrap.Compute

abbrev Slots (α : Type) := List (String × α)

namespace Slots

variable {α : Type}

def get? (s : Slots α) (name : String) : Option α := s.lookup name

def put : Slots α → String → α → Slots α
  | [], name, a => [(name, a)]
  | (n, b) :: s, name, a =>
    if name < n then (name, a) :: (n, b) :: s
    else if name = n then (name, a) :: s
    else (n, b) :: put s name a

def erase (s : Slots α) (name : String) : Slots α := s.filter fun e => e.1 != name

end Slots

structure Buffer where
  memory : Handle
  count : Nat
  elementSize : Nat
  deriving Repr, DecidableEq

def Buffer.size (b : Buffer) : Nat := b.count * b.elementSize

inductive SessionError where
  | noSlot (name : String)
  | unknownType
  | kernel (cause : KernelError)
  deriving Repr, DecidableEq

def SessionError.message : SessionError → String
  | noSlot name => name
  | unknownType => ""
  | kernel cause => cause.message

inductive ArgumentSource where
  | buffer (name : String)
  | native (value : NativeArgument)
  deriving Repr, DecidableEq

structure LaunchRequest where
  kernel : String
  queue : String
  arguments : List (Nat × ArgumentSource)
  grid : Extent
  group : Extent
  waitList : List String
  store : String
  blocking : Bool
  deriving Repr, DecidableEq

inductive Step where
  /-- From now on a call is refused, or no longer. -/
  | refuse (operation : Operation) (why : Option Refusal)
  | queue (name : String) (device : Device) (handle : Option Handle)
  | buffer (name type : String) (count : Nat) (handle : Option Handle)
  | kernel (slot name : String) (source : KernelSource)
  | inspect (kernel : String)
  | build (kernel : String) (device : Device)
  | bind (kernel queue : String)
  | launch (request : LaunchRequest)
  | event (name : String) (handle : Handle)
  | clone (event name : String)
  | wait (event : String)
  | waitAll (events : List String)
  | drop (name : String)
  deriving Repr, DecidableEq

inductive Outcome where
  | nothing
  | queue (q : Queue)
  | buffer (b : Buffer)
  | kernel (k : KernelObject)
  | kernelHandle (h : Handle)
  | eventHandle (h : Handle)
  | event (e : Event)
  | dropped (kernel event : Bool)
  deriving Repr, DecidableEq

structure Session where
  /-- The runtime leaves out the calls that it may leave out. -/
  minimal : Bool
  read : Path → Option String
  refusals : List (Operation × Refusal)
  context : Context
  queues : Slots Queue
  buffers : Slots Buffer
  kernels : Slots KernelObject
  events : Slots Event

namespace Session

/-- The refusals of a session as a native runtime has them. A call that is left out succeeds. -/
def refuses (minimal : Bool) (refusals : List (Operation × Refusal)) (_ : List Record) (c : Call) :
    Option Refusal :=
  if minimal && c.operation.isOptional then none else refusals.lookup c.operation

def start (minimal : Bool) (read : Path → Option String) : Session :=
  ⟨minimal, read, [], .start (refuses minimal []), [], [], [], []⟩

abbrev Result := Except SessionError Outcome × Session

def find (slots : Slots α) (name : String) : Except SessionError α :=
  match slots.get? name with
  | some a => .ok a
  | none => .error (.noSlot name)

def setRefusal (s : Session) (o : Operation) (why : Option Refusal) : Session :=
  let others := s.refusals.filter fun r => r.1 != o
  let refusals := (why.map fun w => (o, w)).toList ++ others
  let native := { s.context.native with refuse := refuses s.minimal refusals }
  { s with refusals := refusals, context := { s.context with native := native } }

def putKernel (s : Session) (name : String) (k : KernelObject) : Session :=
  let native := ((s.kernels.get? name).map fun old => old.drop s.context.native).getD s.context.native
  { s with kernels := s.kernels.put name k, context := { s.context with native := native } }

def putEvent (s : Session) (name : String) (e : Event) : Session :=
  let context := ((s.events.get? name).map s.context.drop).getD s.context
  { s with events := s.events.put name e, context := context }

def dropKernel (s : Session) (name : String) : Bool × Session :=
  match s.kernels.get? name with
  | none => (false, s)
  | some k =>
    (true, { s with
      kernels := s.kernels.erase name
      context := { s.context with native := k.drop s.context.native } })

def dropEvent (s : Session) (name : String) : Bool × Session :=
  match s.events.get? name with
  | none => (false, s)
  | some e => (true, { s with events := s.events.erase name, context := s.context.drop e })

def makeQueue (s : Session) (name : String) (device : Device) (handle : Option Handle) : Result :=
  match handle with
  | some h => (.ok (.queue ⟨h, device⟩), { s with queues := s.queues.put name ⟨h, device⟩ })
  | none =>
    match s.context.createQueue device with
    | (.error e, c) => (.error (.kernel e), { s with context := c })
    | (.ok q, c) => (.ok (.queue q), { s with queues := s.queues.put name q, context := c })

def makeBuffer (s : Session) (name type : String) (count : Nat) (handle : Option Handle) : Result :=
  match layout? type with
  | none => (.error .unknownType, s)
  | some l =>
    match handle with
    | some h =>
      (.ok (.buffer ⟨h, count, l.size⟩), { s with buffers := s.buffers.put name ⟨h, count, l.size⟩ })
    | none =>
      match s.context.issue (.createBuffer (count * l.size)) with
      | (.error e, c) => (.error (.kernel e), { s with context := c })
      | (.ok h, c) =>
        (.ok (.buffer ⟨h, count, l.size⟩),
          { s with buffers := s.buffers.put name ⟨h, count, l.size⟩, context := c })

def makeKernel (s : Session) (slot name : String) (source : KernelSource) : Result :=
  match KernelObject.prepare s.read source name s.context.native with
  | (.error e, n) => (.error (.kernel e), { s with context := { s.context with native := n } })
  | (.ok k, n) =>
    (.ok .nothing, { s with context := { s.context with native := n } }.putKernel slot k)

def buildKernel (s : Session) (name : String) (device : Device) : Result :=
  match find s.kernels name with
  | .error e => (.error e, s)
  | .ok k =>
    match k.build device s.context.native with
    | (r, k, n) =>
      ((r.map Outcome.kernelHandle).mapError .kernel,
        { s with kernels := s.kernels.put name k, context := { s.context with native := n } })

def bindKernel (s : Session) (name queue : String) : Result :=
  match find s.queues queue, find s.kernels name with
  | .ok q, .ok _ => s.buildKernel name q.device
  | .error e, _ => (.error e, s)
  | _, .error e => (.error e, s)

def resolve (buffers : Slots Buffer) :
    List (Nat × ArgumentSource) → List (Nat × NativeArgument) × Option String
  | [] => ([], none)
  | (i, .native a) :: rest =>
    let (found, missing) := resolve buffers rest
    ((i, a) :: found, missing)
  | (i, .buffer name) :: rest =>
    match buffers.get? name with
    | none => ([], some name)
    | some b =>
      let (found, missing) := resolve buffers rest
      ((i, .memory b.memory) :: found, missing)

def launchWith (s : Session) (r : LaunchRequest) (q : Queue) (waitList : List Event)
    (k : KernelObject) : Result :=
  let (arguments, missing) := resolve s.buffers r.arguments
  match s.context.bind k q with
  | (.error e, k, c) => (.error (.kernel e), { s with kernels := s.kernels.put r.kernel k, context := c })
  | (.ok kernel, k, c) =>
    let s := { s with kernels := s.kernels.put r.kernel k }
    match c.setArguments kernel arguments, missing with
    | (.error e, c), _ => (.error (.kernel e), { s with context := c })
    | (.ok (), c), some name => (.error (.noSlot name), { s with context := c })
    | (.ok (), c), none =>
      match c.enqueue kernel q r.grid r.group waitList with
      | (.error e, c) => (.error (.kernel e), { s with context := c })
      | (.ok e, c) =>
        if r.blocking then
          match c.finish e with
          | (.error err, c) => (.error (.kernel err), { s with context := c })
          | (.ok (), c) => (.ok (.eventHandle e.handle), { s with context := c })
        else (.ok (.eventHandle e.handle), { s with context := c }.putEvent r.store e)

def findEvents (s : Session) : List String → Except SessionError (List Event)
  | [] => .ok []
  | name :: rest => do
    let e ← find s.events name
    return e :: (← s.findEvents rest)

def launch (s : Session) (r : LaunchRequest) : Result :=
  match find s.queues r.queue with
  | .error e => (.error e, s)
  | .ok q =>
    match s.findEvents r.waitList with
    | .error e => (.error e, s)
    | .ok waitList =>
      match find s.kernels r.kernel with
      | .error e => (.error e, s)
      | .ok k =>
        match { s with context := s.context.cloneAll waitList }.launchWith r q waitList k with
        | (o, s) => (o, { s with context := s.context.dropAll waitList })

def waitFor (s : Session) (names : List String) : Result :=
  match s.findEvents names with
  | .error e => (.error e, s)
  | .ok events =>
    match (s.context.cloneAll events).waitAll events with
    | (r, c) =>
      ((r.map fun _ => Outcome.nothing).mapError .kernel, { s with context := c.dropAll events })

def step (s : Session) : Step → Result
  | .refuse o why => (.ok .nothing, s.setRefusal o why)
  | .queue name device handle => s.makeQueue name device handle
  | .buffer name type count handle => s.makeBuffer name type count handle
  | .kernel slot name source => s.makeKernel slot name source
  | .inspect name => ((find s.kernels name).map .kernel, s)
  | .build name device => s.buildKernel name device
  | .bind name queue => s.bindKernel name queue
  | .launch r => s.launch r
  | .event name handle =>
    match s.context.own handle with
    | (e, c) => (.ok (.event e), { s with context := c }.putEvent name e)
  | .clone name copy =>
    match find s.events name with
    | .error e => (.error e, s)
    | .ok e =>
      (.ok (.eventHandle e.handle), { s with context := s.context.clone e }.putEvent copy e)
  | .wait name =>
    match find s.events name with
    | .error e => (.error e, s)
    | .ok e =>
      match s.context.wait e with
      | (r, c) => ((r.map fun _ => Outcome.nothing).mapError .kernel, { s with context := c })
  | .waitAll names => s.waitFor names
  | .drop name =>
    match s.dropKernel name with
    | (kernel, s) =>
      match s.dropEvent name with
      | (event, s) => (.ok (.dropped kernel event), s)

def finish (s : Session) : Session :=
  let s := s.kernels.foldl (fun s e => (s.dropKernel e.1).2) s
  s.events.foldl (fun s e => (s.dropEvent e.1).2) s

def heard (s : Session) : List Call :=
  s.context.native.calls.filter fun c => !(s.minimal && c.operation.isOptional)

def run (s : Session) : List Step → List (Except SessionError Outcome × List Call) × List Call
  | [] => ([], s.finish.heard.drop s.heard.length)
  | t :: ts =>
    match s.step t with
    | (o, after) =>
      match after.run ts with
      | (outcomes, ending) => ((o, after.heard.drop s.heard.length) :: outcomes, ending)

end Session

end KernelWrap.Compute
