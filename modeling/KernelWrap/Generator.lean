import KernelWrap.Binding
import KernelWrap.Digest.Framing
import KernelWrap.Formatter
import KernelWrap.Notice
import KernelWrap.Settings

/-!
Generation of one artifact, step by step. The source is read and analyzed, a referenced source is
copied to the assets, and the digest of all that the artifact depends on is compared with the
digest beside the artifact. An artifact that is not fresh is rendered and written, and its digest
after it, so the digest on the disk never belongs to an artifact that was not written.
-/

namespace KernelWrap

open Declaration

inductive GenerateError where
  | clash (first second artifact : Path)
  | unread (source : Path) (cause : OsError)
  | unresolved (source : Path) (cause : OsError)
  | malformed (source : Path) (cause : ParseError)
  | noDirectory (directory : Path) (cause : OsError)
  | uncopied (source target : Path) (cause : OsError)
  | unbound (source : Path) (cause : BindError)
  | unwritten (artifact : Path) (cause : OsError)
  | noDigest (file : Path) (cause : OsError)
  deriving Repr, DecidableEq

def GenerateError.message : GenerateError → String
  | clash first second artifact => s!"{first} and {second} both generate {artifact}"
  | unread source cause => s!"cannot read {source}: {cause.message}"
  | unresolved source cause => s!"cannot resolve {source}: {cause.message}"
  | malformed source cause => s!"malformed kernel declaration in {source}: {cause.display}"
  | noDirectory directory cause => s!"cannot create directory {directory}: {cause.message}"
  | uncopied source target cause => s!"cannot copy {source} to {target}: {cause.message}"
  | unbound source cause => s!"cannot generate bindings for {source}: {cause.message}"
  | unwritten artifact cause => s!"cannot write file {artifact}: {cause.message}"
  | noDigest file cause => s!"cannot write hash file {file}: {cause.message}"

structure Artifact where
  input : Input
  path : Path
  kernels : List String
  cached : Bool
  deriving Repr, DecidableEq

structure Generator where
  settings : Settings
  out : Path
  /-- Fresh artifacts are generated again. -/
  force : Bool
  search : Option String
  deriving Repr, DecidableEq

inductive Progress where
  | waiting
  | started
  | read (text : String)
  | analyzed (u : SourceUnit) (a : Analysis)
  | placed (u : SourceUnit) (a : Analysis)
  | rendered (u : SourceUnit) (a : Analysis) (text : String)
  | written (u : SourceUnit) (a : Analysis)
  | done (artifact : Artifact)
  | failed (e : GenerateError)
  deriving Repr, DecidableEq

def Progress.stepCount : Nat := 7

def Progress.artifact? : Progress → Option Artifact
  | done a => some a
  | _ => none

def Progress.error? : Progress → Option GenerateError
  | failed e => some e
  | _ => none

def SourceUnit.load (d : Disk) (input : Input) : Except GenerateError SourceUnit :=
  match d.readText input.path with
  | .error e => .error (.unread input.path e)
  | .ok text =>
    match d.resolve input.path with
    | .error e => .error (.unresolved input.path e)
    | .ok resolved => .ok (.ofText input resolved text)

/-- Whether an artifact exists and its digest is the one that is wanted. -/
def isFresh (d : Disk) (artifact : Path) (digest : String) : Bool :=
  d.exist artifact &&
    match d.readText (hashPath artifact) with
    | .ok text => text == digest
    | .error _ => false

def makeParent (d : Disk) (file : Path) : Except GenerateError Unit × Disk :=
  match file.parent? with
  | none => (.ok (), d)
  | some p =>
    match d.makeDirectories p with
    | (.error e, d) => (.error (.noDirectory p e), d)
    | (.ok (), d) => (.ok (), d)

namespace Generator

def start (env : Environment) (settings : Settings) (out : Path) : Generator where
  settings := { settings with strict := settings.strict || env.sets .strict }
  out := out
  force := env.sets .force
  search := env.searchPath

def digest (g : Generator) (u : SourceUnit) : String :=
  Digest.ofParts ([g.settings.json.compact, u.path.display, u.resolved.display, u.assetText,
    if u.embedded then "embed" else "path", u.text].map Digest.bytesOf)

def placeAsset (g : Generator) (u : SourceUnit) (d : Disk) : Except GenerateError Unit × Disk :=
  match g.settings.assets, u.embedded with
  | some assets, false =>
    let target := assets.join u.assetPath
    match makeParent d target with
    | (.error e, d) => (.error e, d)
    | (.ok (), d) =>
      match d.copy u.path target with
      | (.error e, d) => (.error (.uncopied u.path target e), d)
      | (.ok (), d) => (.ok (), d)
  | _, _ => (.ok (), d)

def writeArtifact (artifact : Path) (text : String) (d : Disk) : Except GenerateError Unit × Disk :=
  match makeParent d artifact with
  | (.error e, d) => (.error e, d)
  | (.ok (), d) =>
    match d.writeText artifact text with
    | .error e => (.error (.unwritten artifact e), d)
    | .ok d => (.ok (), d)

def kernelNames (a : Analysis) : List String := a.kernels.map Kernel.name

/-- One step of the generation for an input. Other generations may take steps in between. -/
def step (g : Generator) (input : Input) (p : Progress) (d : Disk) :
    Progress × Disk × List Notice :=
  let artifact := input.artifact g.out
  match p with
  | .waiting => (.started, d, [.started input.path])
  | .started =>
    match d.readText input.path with
    | .error e => (.failed (.unread input.path e), d, [])
    | .ok text => (.read text, d, [])
  | .read text =>
    match d.resolve input.path with
    | .error e => (.failed (.unresolved input.path e), d, [])
    | .ok resolved =>
      let u := SourceUnit.ofText input resolved text
      match (Analysis.ofText u.text.toList).check g.settings.strict with
      | .error e => (.failed (.malformed u.path e), d, [])
      | .ok a => (.analyzed u a, d, a.skipped.map (.skipped u.path))
  | .analyzed u a =>
    match g.placeAsset u d with
    | (.error e, d) => (.failed e, d, [])
    | (.ok (), d) => (.placed u a, d, [])
  | .placed u a =>
    if !g.force && isFresh d artifact (g.digest u) then
      (.done ⟨input, artifact, kernelNames a, true⟩, d, [.asked .force, .cached input.path])
    else
      match renderUnit g.settings.support u a Host.pathReader with
      | .error e => (.failed (.unbound input.path e), d, [.asked .force])
      | .ok text => (.rendered u a text, d, [.asked .force])
  | .rendered u a text =>
    match writeArtifact artifact text d with
    | (.error e, d) => (.failed e, d, [])
    | (.ok (), d) =>
      (.written u a, d,
        if g.settings.formatted then [.unformatted (Formatter.startFault g.search d)] else [])
  | .written u a =>
    match d.writeText (hashPath artifact) (g.digest u) with
    | .error e => (.failed (.noDigest (hashPath artifact) e), d, [])
    | .ok d =>
      (.done ⟨input, artifact, kernelNames a, false⟩, d, [.finished input.path (kernelNames a)])
  | .done a => (.done a, d, [])
  | .failed e => (.failed e, d, [])

end Generator

end KernelWrap
