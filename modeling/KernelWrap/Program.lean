import KernelWrap.Build
import KernelWrap.Command
import KernelWrap.Inspection
import KernelWrap.Settings.File

/-!
The program: it runs the command that its arguments give on a disk. It prints a line for each
artifact and one for all of them, or the inspection of a file; an error is one line on the error
output. The exit code is two when the arguments give no command, and one after an error.
-/

namespace KernelWrap

structure Outcome where
  code : Nat
  out : String
  err : String
  deriving Repr, DecidableEq

namespace Program

def padTo (width : Nat) (s : String) : String :=
  String.ofList (List.replicate (width - s.length) ' ') ++ s

def artifactLine (a : Artifact) : String :=
  let status := if a.cached then "cached" else "generated"
  let kernels := if a.kernels.isEmpty then "no kernels" else String.intercalate ", " a.kernels
  s!"{padTo 9 status} {a.path} ({kernels})"

def summaryLine (artifacts : List Artifact) : String :=
  let count := (artifacts.flatMap Artifact.kernels).length
  s!"{count} kernels in {artifacts.length} files"

def unlines (lines : List String) : String := String.join (lines.map (· ++ "\n"))

def outcome (code : Nat) (r : Report) : Outcome := ⟨code, unlines r.out, unlines r.err⟩

def failure (r : Report) (message : String) : Outcome :=
  outcome 1 { r with err := r.err ++ ["error: " ++ message] }

def settingsMessage (e : SettingsError) : String :=
  match e with
  | .unopened .. => e.message
  | .unreadable _ cause => e.message ++ ": " ++ cause.message
  | .unread _ fault => e.message ++ (fault.detail?.map (": " ++ ·)).getD ""

def generate (env : Environment) (elapsed : String) (source out : Path) (settings : Settings)
    (d : Disk) : Outcome × Disk :=
  let g := Generator.start env settings out
  let inputs := g.discover source d
  match g.build inputs d with
  | (result, d, notices) =>
    let notices := .asked .strict :: .discovered inputs.length source :: notices
    let r := notices.foldl (Report.add env elapsed) {}
    match result with
    | .error e => (failure r e.message, d)
    | .ok artifacts =>
      let lines := artifacts.map artifactLine ++ [summaryLine artifacts]
      (outcome 0 { r with out := r.out ++ lines }, d)

def inspect (file : Path) (strict : Bool) (d : Disk) : Outcome :=
  match Inspection.ofFile d file strict with
  | .error e => failure {} e.message
  | .ok i => outcome 0 { out := [i.json.pretty] }

def run (env : Environment) (elapsed : String) (arguments : List String) (d : Disk) :
    Outcome × Disk :=
  match Command.ofArguments arguments with
  | none => (outcome 2 {}, d)
  | some .help => (outcome 0 {}, d)
  | some .version => (outcome 0 { out := ["kernelgen " ++ Digest.version] }, d)
  | some (.inspect file strict) => (inspect file strict d, d)
  | some (.generate source out file overrides) =>
    match Settings.ofCommand d file overrides with
    | .error e => (failure {} (settingsMessage e), d)
    | .ok settings => generate env elapsed source out settings d

def named (arguments : List String) : List Path :=
  match Command.ofArguments arguments with
  | some (.inspect file _) => [file]
  | some (.generate _ _ file _) => file.toList
  | _ => []

def readsSources (arguments : List String) : Bool :=
  match Command.ofArguments arguments with
  | some (.generate ..) => true
  | _ => false

def targetsOf (g : Generator) (i : Input) : List Path :=
  let artifact := i.artifact g.out
  let asset := (SourceUnit.ofText i i.path "").assetPath
  [artifact, hashPath artifact] ++ (g.settings.assets.map fun a => a.join asset).toList

def targets (env : Environment) (arguments : List String) (d : Disk) : List Path :=
  match Command.ofArguments arguments with
  | some (.generate source out file overrides) =>
    match Settings.ofCommand d file overrides with
    | .error _ => []
    | .ok settings =>
      let g := Generator.start env settings out
      (g.discover source d).flatMap (targetsOf g)
  | _ => []

end Program

end KernelWrap
