import KernelWrap.Text.Blank

/-!
Switches that a user sets by environment variables. A switch is off when it is not set, and when
its value is empty, `0`, `false`, `no` or `off`, with blanks around it and in any case of its ASCII
letters; every other value turns it on.
-/

namespace KernelWrap

def offWords : List String := ["", "0", "false", "no", "off"]

def isOn (value : Option String) : Bool :=
  match value with
  | none => false
  | some v => !offWords.contains (String.ofList ((Text.trim v.toList).map Char.toLower))

inductive Switch where
  | strict | debug | force
  deriving Repr, DecidableEq

def Switch.name : Switch → String
  | strict => "KERNELGEN_STRICT"
  | debug => "KERNELGEN_DEBUG"
  | force => "KERNELGEN_FORCE"

abbrev Environment := List (String × String)

namespace Environment

def sets (e : Environment) (s : Switch) : Bool := isOn (e.lookup s.name)

def inBuildScript (e : Environment) : Bool :=
  (e.lookup "OUT_DIR").isSome && (e.lookup "CARGO_MANIFEST_DIR").isSome

def searchPath (e : Environment) : Option String := e.lookup "PATH"

end Environment

end KernelWrap
