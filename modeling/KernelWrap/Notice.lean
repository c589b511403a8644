import KernelWrap.Declaration.Signature
import KernelWrap.Disk
import KernelWrap.Switch

/-!
Notices: what a run tells its user besides its results. Debug notices are told when the debug
switch is on. In a build script each switch is announced when it is first asked for, and notices
are written as warnings to the output; elsewhere they go to the error output.
-/

namespace KernelWrap

open Declaration

inductive Notice where
  /-- A switch had a say in what was done. -/
  | asked (s : Switch)
  | discovered (count : Nat) (source : Path)
  | started (source : Path)
  | skipped (source : Path) (e : ParseError)
  | cached (source : Path)
  | finished (source : Path) (kernels : List String)
  /-- An artifact stays as it was written because no formatter could be run. -/
  | unformatted (cause : OsError)
  deriving Repr, DecidableEq

def Notice.debugText? : Notice → Option String
  | asked _ | unformatted _ => none
  | discovered count source => some s!"discovered {count} kernel sources in {source}"
  | started source => some s!"generate start: {source}"
  | skipped source e => some s!"skipped kernel declaration in {source}: {e.display}"
  | cached source => some s!"generate cached: {source}"
  | finished source kernels =>
    let names := String.intercalate ", " kernels
    some s!"generate end: {source} (kernels: [{names}])"

structure Report where
  out : List String := []
  err : List String := []
  asked : List Switch := []
  deriving Repr, DecidableEq

namespace Report

variable (env : Environment)

def ask (r : Report) (s : Switch) : Report :=
  if r.asked.contains s then r
  else
    { r with
      asked := s :: r.asked
      out := if env.inBuildScript then r.out ++ ["cargo::rerun-if-env-changed=" ++ s.name] else r.out }

def tell (r : Report) (line : String) : Report :=
  if env.inBuildScript then { r with out := r.out ++ ["cargo::warning=" ++ line] }
  else { r with err := r.err ++ [line] }

def add (elapsed : String) (r : Report) (n : Notice) : Report :=
  match n, n.debugText? with
  | .asked s, _ => r.ask env s
  | .unformatted cause, _ => r.tell env s!"(kernelgen) rustfmt failed: {cause.message}"
  | _, none => r
  | _, some text =>
    let r := r.ask env .debug
    if env.sets .debug then r.tell env s!"(kernelgen-debug) [{elapsed}ms] {text}" else r

end Report

end KernelWrap
