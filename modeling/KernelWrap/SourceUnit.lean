import KernelWrap.Path

/-!
Inputs and source units. An input names a source file and the place of its artifact below the
output directory; a unit is an input with its text loaded. A referenced source is copied to the
place of its artifact with the extension of the source.
-/

namespace KernelWrap

structure Input where
  path : Path
  /-- The place of the artifact below the output directory, without extension. -/
  link : Path
  /-- The source is referred to by path instead of being embedded. -/
  referenced : Bool
  deriving Repr, DecidableEq

/-- The artifact of an input: its link below the output directory, with `.rs` behind it. -/
def Input.artifact (i : Input) (out : Path) : Path := (out.join i.link).extended ".rs"

structure SourceUnit where
  path : Path
  resolved : Path
  text : String
  embedded : Bool
  /-- Where the source lies below the asset directory. -/
  assetPath : Path
  deriving Repr, DecidableEq

namespace SourceUnit

def ofText (input : Input) (resolved : Path) (text : String) : SourceUnit where
  path := input.path
  resolved := resolved
  text := text
  embedded := !input.referenced
  assetPath :=
    match input.path.extension? with
    | some ext => input.link.withExtension ext
    | none => input.link

def assetText (u : SourceUnit) : String := u.assetPath.slashText

end SourceUnit

def hashPath (artifact : Path) : Path := artifact.extended ".hash"

def locateAsset (base : Path) (asset : Path) : Path := base.join asset

end KernelWrap
