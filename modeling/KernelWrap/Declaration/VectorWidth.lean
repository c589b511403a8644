import KernelWrap.Text.Blank

/-!
Vector type names: a numeric base type and a width, `float4`. Any other name is taken whole, with
width 0, so that `int32_t` and `half4` stay as they are.
-/

namespace KernelWrap.Declaration

open Text

def numericBases : List String :=
  ["char", "uchar", "short", "ushort", "int", "uint", "long", "ulong", "float", "double"]

def vectorWidths : List Nat := [2, 3, 4, 8, 16]

def vectorForms : List (String × Nat) :=
  numericBases.flatMap fun b => vectorWidths.map fun w => (b, w)

/-- The name of a type with a width; width 0 is not written. -/
def vectorName (base : String) (width : Nat) : String :=
  if width = 0 then base else base ++ toString width

def beforeSuffix? (suffix name : String) : Option String :=
  (after? suffix.toList.reverse name.toList.reverse).map fun s => String.ofList s.reverse

/-- The base and the width of a type name: the widest width that the name ends with behind a numeric
base type. -/
def splitWidth (name : String) : String × Nat :=
  (vectorWidths.reverse.findSome? fun w =>
    ((beforeSuffix? (toString w) name).filter fun b => numericBases.contains b).map
      fun b => (b, w)).getD (name, 0)

end KernelWrap.Declaration
