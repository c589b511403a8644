import KernelWrap.Settings

/-!
Commands as they are given by arguments. A command takes one path, and options in any place, each
at most once; the value of an option follows it or an equals sign. An argument behind `--` is no
option, and neither is a dash alone. A path is never empty.
-/

namespace KernelWrap

inductive Command where
  | help
  | version
  | generate (source out : Path) (settings : Option Path) (overrides : Overrides)
  | inspect (file : Path) (strict : Bool)
  deriving Repr, DecidableEq

namespace Command

inductive OptionKind where
  | flag | path | text
  deriving Repr, DecidableEq

structure Given where
  plain : List String := []
  options : List (String × String) := []

def Given.has (g : Given) (name : String) : Bool := (g.options.lookup name).isSome

def Given.addPlain (g : Given) (s : String) : Option Given :=
  if g.plain.isEmpty && !s.isEmpty then some { g with plain := [s] } else none

def Given.addOption (g : Given) (kind : OptionKind) (name value : String) : Option Given :=
  if g.has name || (kind = .path && value.isEmpty) then none
  else some { g with options := (name, value) :: g.options }

inductive Reading where
  | wrong
  | help
  | given (g : Given)

def Reading.ofOption : Option Given → Reading
  | none => wrong
  | some g => given g

def isDashed (s : String) : Bool :=
  match s.toList with
  | '-' :: _ :: _ => true
  | _ => false

def splitOption? (s : String) : Option (String × Option String) :=
  match s.toList with
  | '-' :: '-' :: body =>
    let name := String.ofList (body.takeWhile (· != '='))
    match body.dropWhile (· != '=') with
    | _ :: value => some (name, some (String.ofList value))
    | [] => some (name, none)
  | _ => none

def readArguments (kinds : List (String × OptionKind)) (g : Given) : List String → Reading
  | [] => .given g
  | s :: rest =>
    if s = "--" then .ofOption (rest.foldlM Given.addPlain g)
    else if !isDashed s then
      match g.addPlain s with
      | none => .wrong
      | some g => readArguments kinds g rest
    else
      match splitOption? s with
      | none => if s.toList.take 2 = ['-', 'h'] then .help else .wrong
      | some (name, value) =>
        match kinds.lookup name, value with
        | none, none => if name = "help" then .help else .wrong
        | none, some _ => .wrong
        | some .flag, some _ => .wrong
        | some .flag, none =>
          match g.addOption .flag name "" with
          | none => .wrong
          | some g => readArguments kinds g rest
        | some kind, some v =>
          match g.addOption kind name v with
          | none => .wrong
          | some g => readArguments kinds g rest
        | some kind, none =>
          match rest with
          | [] => .wrong
          | v :: rest =>
            if isDashed v then .wrong
            else
              match g.addOption kind name v with
              | none => .wrong
              | some g => readArguments kinds g rest

def generateOptions : List (String × OptionKind) :=
  [("out-dir", .path), ("config", .path), ("strict", .flag), ("copy-to-output", .flag),
   ("asset-dir", .path), ("runtime-path", .text)]

def inspectOptions : List (String × OptionKind) := [("strict", .flag)]

def Given.path? (g : Given) (name : String) : Option Path := (g.options.lookup name).map Path.ofString

def ofGenerate (g : Given) : Option Command :=
  match g.plain, g.path? "out-dir" with
  | [source], some out =>
    some (.generate (.ofString source) out (g.path? "config")
      { strict := g.has "strict", referenced := g.has "copy-to-output",
        assets := g.path? "asset-dir", support := g.options.lookup "runtime-path" })
  | _, _ => none

def ofInspect (g : Given) : Option Command :=
  match g.plain with
  | [file] => some (.inspect (.ofString file) (g.has "strict"))
  | _ => none

def finish (make : Given → Option Command) : Reading → Option Command
  | .wrong => none
  | .help => some help
  | .given g => make g

def ofArguments : List String → Option Command
  | [] => some help
  | "generate" :: rest => finish ofGenerate (readArguments generateOptions {} rest)
  | "inspect" :: rest => finish ofInspect (readArguments inspectOptions {} rest)
  | "help" :: rest =>
    if ([[], ["generate"], ["inspect"], ["help"]] : List (List String)).contains rest then some help
    else none
  | s :: _ =>
    if s = "--version" || s.toList.take 2 = ['-', 'V'] then some version
    else if s = "--help" || s.toList.take 2 = ['-', 'h'] then some help
    else none

end Command

end KernelWrap
