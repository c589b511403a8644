import KernelWrap.Disk
import KernelWrap.Json.Reader
import KernelWrap.Settings

/-!
Settings files. A file holds one JSON record with some of the fields, each at most once, or the
list of the first fields' values in order; the fields that are missing have their defaults.
-/

namespace KernelWrap

open Json

namespace Settings

structure Draft where
  strict : Option Bool := none
  support : Option String := none
  extensions : Option (List String) := none
  referenced : Option Bool := none
  assets : Option (Option Path) := none
  formatted : Option Bool := none

def Draft.settings (d : Draft) : Settings :=
  let base : Settings := {}
  { strict := d.strict.getD base.strict
    support := d.support.getD base.support
    extensions := d.extensions.getD base.extensions
    referenced := d.referenced.getD base.referenced
    assets := d.assets.getD base.assets
    formatted := d.formatted.getD base.formatted }

def Draft.has (d : Draft) : String → Bool
  | "strict" => d.strict.isSome
  | "runtime_path" => d.support.isSome
  | "extensions" => d.extensions.isSome
  | "copy_to_output" => d.referenced.isSome
  | "asset_dir" => d.assets.isSome
  | _ => d.formatted.isSome

def readPath (s : List Char) : Reading Path :=
  (readText "path string" s).map fun (t, s) => (Path.ofString t, s)

def Draft.readField (d : Draft) (name : String) (s : List Char) : Reading Draft :=
  match name with
  | "strict" => (readBool s).map fun (b, s) => ({ d with strict := some b }, s)
  | "runtime_path" => (readText "a string" s).map fun (t, s) => ({ d with support := some t }, s)
  | "extensions" =>
    (readList (readText "a string") s).map fun (ts, s) => ({ d with extensions := some ts }, s)
  | "copy_to_output" => (readBool s).map fun (b, s) => ({ d with referenced := some b }, s)
  | "asset_dir" => (readOption readPath s).map fun (p, s) => ({ d with assets := some p }, s)
  | _ => (readBool s).map fun (b, s) => ({ d with formatted := some b }, s)

def readRecord : Nat → Bool → Draft → List Char → Reading Draft
  | 0, _, _, _ => .error .ended
  | fuel + 1, first, d, s =>
    match nextField first s with
    | .error f => .error f
    | .ok (none, s) => .ok (d, s)
    | .ok (some name, s) =>
      if !fieldNames.contains name then .error (.unknownField name fieldNames)
      else if d.has name then .error (.duplicateField name)
      else
        match readColon s with
        | .error f => .error f
        | .ok s =>
          match d.readField name s with
          | .error f => .error f
          | .ok (d, s) => readRecord fuel false d s

def readValues : List String → Bool → Draft → List Char → Reading Draft
  | [], _, d, s => .ok (d, s)
  | name :: names, first, d, s =>
    match nextItem first s with
    | .error f => .error f
    | .ok none => .ok (d, s)
    | .ok (some s) =>
      match d.readField name s with
      | .error f => .error f
      | .ok (d, s) => readValues names false d s

def ofBytes (b : ByteArray) : Except Fault Settings := do
  let s := skipBlanks (Json.ofBytes b)
  let (d, s) ← match s with
    | [] => Except.error Fault.ended
    | '\x7b' :: s => readRecord (s.length + 1) true {} s
    | '[' :: s => do
      let (d, s) ← readValues fieldNames true {} s
      pure (d, ← closeList s)
    | s => .error (unexpected "struct GeneratorConfig" s)
  readEnd s
  return d.settings

end Settings

inductive SettingsError where
  | unopened (file : Path) (cause : OsError)
  | unreadable (file : Path) (cause : OsError)
  | unread (file : Path) (fault : Fault)

def SettingsError.message : SettingsError → String
  | unopened file cause => s!"cannot open config {file}: {cause.message}"
  | unreadable file _ | unread file _ => s!"cannot parse config {file}"

def Settings.ofFile (d : Disk) (file : Path) : Except SettingsError Settings :=
  match d.find file with
  | .error e => .error (.unopened file e)
  | .ok (_, .directory) => .error (.unreadable file .isDirectory)
  | .ok (_, .file content) => (Settings.ofBytes content).mapError (.unread file)

def Settings.ofCommand (d : Disk) (file : Option Path) (o : Overrides) :
    Except SettingsError Settings :=
  match file with
  | none => .ok (Settings.override {} o)
  | some f => (Settings.ofFile d f).map fun s => s.override o

end KernelWrap
