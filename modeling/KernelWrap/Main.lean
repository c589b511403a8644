import KernelWrap.Program

/-!
The command line program. For a generation the paths of the files below the source directory are
read from the standard input, one a line. The files that the run depends on are read before it,
and those that it changed are written after it.
-/

namespace KernelWrap

partial def readPaths (input : IO.FS.Stream) : IO (List Path) := do
  let line ← input.getLine
  if line.isEmpty then return []
  let chars := line.toList
  let path := if chars.getLast? = some '\n' then chars.dropLast else chars
  return ⟨path⟩ :: (← readPaths input)

def readFiles (paths : List Path) : IO (List (Path × ByteArray)) := do
  let mut found := []
  for p in paths do
    try found := (p, ← IO.FS.readBinFile p.display) :: found catch _ => pure ()
  return found.reverse

def writeFiles (files : List (Path × ByteArray)) : IO Unit := do
  for (p, content) in files do
    if let some parent := p.parent? then IO.FS.createDirAll parent.display
    IO.FS.writeBinFile p.display content

def readEnvironment : IO Environment := do
  let mut env := []
  for name in ["KERNELGEN_STRICT", "KERNELGEN_DEBUG", "KERNELGEN_FORCE", "OUT_DIR",
      "CARGO_MANIFEST_DIR", "PATH"] do
    if let some value ← IO.getEnv name then env := (name, value) :: env
  return env

def workingPlace : IO Place := do
  let pwd := (← IO.getEnv "PWD").getD "/"
  return (splitSlashes pwd.toList).filter (· ≠ [])

end KernelWrap

open KernelWrap in
def main (arguments : List String) : IO UInt32 := do
  let started ← IO.monoMsNow
  let env ← readEnvironment
  let here ← workingPlace
  let sources ← if Program.readsSources arguments then readPaths (← IO.getStdin) else pure []
  let given ← readFiles (Program.named arguments ++ sources)
  let known ← readFiles (Program.targets env arguments (Disk.ofFiles here given))
  let before := Disk.ofFiles here (given ++ known)
  let elapsed := toString ((← IO.monoMsNow) - started)
  let (outcome, after) := Program.run env elapsed arguments before
  writeFiles (before.changes after)
  IO.print outcome.out
  IO.eprint outcome.err
  return outcome.code.toUInt32
