import KernelWrap.Discovery
import KernelWrap.Generator

/-!
Builds: the generation of all inputs of an output directory. The generations take their steps in
some order, and the first that fails ends the build. A build starts only when no two inputs have
the same artifact; its results are in the order of the source paths.
-/

namespace KernelWrap

structure Job where
  input : Input
  progress : Progress
  deriving Repr, DecidableEq

structure Build where
  disk : Disk
  jobs : List Job
  notices : List Notice

namespace Build

def start (d : Disk) (inputs : List Input) : Build := ⟨d, inputs.map fun i => ⟨i, .waiting⟩, []⟩

def error? (b : Build) : Option GenerateError := b.jobs.findSome? fun j => j.progress.error?

/-- One step of the job at an index. Nothing happens in a build that failed. -/
def advance (g : Generator) (b : Build) (i : Nat) : Build :=
  match b.error?, b.jobs[i]? with
  | none, some j =>
    match g.step j.input j.progress b.disk with
    | (p, d, notices) => ⟨d, b.jobs.set i ⟨j.input, p⟩, b.notices ++ notices⟩
  | _, _ => b

def run (g : Generator) (schedule : List Nat) (b : Build) : Build := schedule.foldl (advance g) b

def artifacts (b : Build) : List Artifact :=
  sortByPath (fun a => a.input.path) (b.jobs.filterMap fun j => j.progress.artifact?)

def result (b : Build) : Except GenerateError (List Artifact) :=
  match b.error? with
  | some e => .error e
  | none => .ok b.artifacts

theorem run_append (g : Generator) (s t : List Nat) (b : Build) :
    b.run g (s ++ t) = (b.run g s).run g t := by
  simp [run]

end Build

def roundRobin (n : Nat) : List Nat :=
  (List.replicate Progress.stepCount (List.range n)).flatten

namespace Generator

/-- The first input whose artifact is that of an earlier input; `claimed` holds the artifacts of
the inputs before, with their sources. -/
def clash? (g : Generator) (claimed : List (Path × Path)) : List Input → Option GenerateError
  | [] => none
  | i :: rest =>
    let artifact := i.artifact g.out
    match claimed.find? fun c => c.1.same artifact with
    | some c => some (.clash c.2 i.path artifact)
    | none => g.clash? ((artifact, i.path) :: claimed) rest

def buildBy (g : Generator) (schedule : List Nat) (inputs : List Input) (d : Disk) :
    Except GenerateError (List Artifact) × Disk × List Notice :=
  match g.clash? [] inputs with
  | some e => (.error e, d, [])
  | none =>
    let b := (Build.start d inputs).run g schedule
    (b.result, b.disk, b.notices)

def build (g : Generator) (inputs : List Input) (d : Disk) :
    Except GenerateError (List Artifact) × Disk × List Notice :=
  g.buildBy (roundRobin inputs.length) inputs d

def discover (g : Generator) (source : Path) (d : Disk) : List Input :=
  KernelWrap.discover d source g.settings.extensions g.settings.referenced

end Generator

end KernelWrap
