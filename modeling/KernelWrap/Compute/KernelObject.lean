import KernelWrap.Compute.Native

/-!
The native object behind a wrapper. It is prepared when it is made and built at most once, for the
device of its first use: a program is built and a kernel is created in it. A kernel that cannot be
created takes its program with it and leaves the object prepared. When the object is dropped, its
kernel is released before its program.
-/

namespace KernelWrap.Compute

inductive KernelSource where
  | embedded (text : String)
  | file (path : Path)
  deriving Repr, DecidableEq

def KernelSource.load (read : Path → Option String) : KernelSource → Except KernelError String
  | embedded text => .ok text
  | file path =>
    match read path with
    | some text => .ok text
    | none => .error (.source path)

inductive Stage where
  | prepared
  | built (device : Device) (program kernel : Handle)
  deriving Repr, DecidableEq

structure KernelObject where
  name : String
  source : String
  stage : Stage
  deriving Repr, DecidableEq

namespace KernelObject

def prepare (read : Path → Option String) (source : KernelSource) (name : String) (n : Native) :
    Except KernelError KernelObject × Native :=
  match source.load read with
  | .error e => (.error e, n)
  | .ok text =>
    match n.perform (.prepare text name) with
    | (.error why, n) => (.error (.native .prepare why.status), n)
    | (.ok (), n) => (.ok ⟨name, text, .prepared⟩, n)

def build (k : KernelObject) (device : Device) (n : Native) :
    Except KernelError Handle × KernelObject × Native :=
  match k.stage with
  | .built d _ kernel =>
    (if d = device then .ok kernel else .error (.deviceMismatch k.name d device), k, n)
  | .prepared =>
    match n.issue (.buildProgram device k.source) with
    | (.error why, n) => (.error (.build k.name why.log), k, n)
    | (.ok program, n) =>
      match n.issue (.createKernel program k.name) with
      | (.error why, n) =>
        (.error (.native .createKernel why.status), k, n.attempt (.releaseProgram program))
      | (.ok kernel, n) => (.ok kernel, { k with stage := .built device program kernel }, n)

def drop (k : KernelObject) (n : Native) : Native :=
  match k.stage with
  | .prepared => n
  | .built _ program kernel =>
    (n.attempt (.releaseKernel kernel)).attempt (.releaseProgram program)

end KernelObject

end KernelWrap.Compute
