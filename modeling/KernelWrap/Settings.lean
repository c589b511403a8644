import KernelWrap.Json.Value
import KernelWrap.SourceUnit

/-!
Generator settings. They are written as one record whose fields are in a fixed order; what the
command line sets goes over what a settings file says.
-/

namespace KernelWrap

structure Settings where
  /-- A declaration that does not parse fails the generation instead of being skipped. -/
  strict : Bool := false
  /-- The module path of the support library that generated code uses. -/
  support : String := "::kernelgen::runtime"
  extensions : List String := ["cl"]
  /-- Sources are referred to by path instead of being embedded. -/
  referenced : Bool := false
  /-- Where referenced sources are copied to. -/
  assets : Option Path := none
  /-- Artifacts are formatted after they were written. -/
  formatted : Bool := false
  deriving Repr, DecidableEq

namespace Settings

def fieldNames : List String :=
  ["strict", "runtime_path", "extensions", "copy_to_output", "asset_dir", "rustfmt"]

def json (s : Settings) : Json :=
  .record [("strict", .bool s.strict), ("runtime_path", .text s.support),
    ("extensions", .texts s.extensions), ("copy_to_output", .bool s.referenced),
    ("asset_dir", (s.assets.map fun p => Json.text p.display).getD .null),
    ("rustfmt", .bool s.formatted)]

end Settings

structure Overrides where
  strict : Bool := false
  referenced : Bool := false
  assets : Option Path := none
  support : Option String := none
  deriving Repr, DecidableEq

def Settings.override (s : Settings) (o : Overrides) : Settings :=
  { s with
    strict := s.strict || o.strict
    referenced := s.referenced || o.referenced
    assets := o.assets <|> s.assets
    support := o.support.getD s.support }

end KernelWrap
