import KernelWrap.Declaration.VectorWidth

/-!
Host types: the names that dialect types have on the host, and the layout of those the support
library defines. A vector is aligned to its size, and three components take the room of four.
-/

namespace KernelWrap

open Declaration

def memoryHandles : List String :=
  ["image1d_t", "image1d_array_t", "image1d_buffer_t", "image2d_t", "image2d_array_t",
   "image2d_depth_t", "image3d_t", "sampler_t"]

def hostScalars : List (String × String) :=
  [("bool", "bool"), ("char", "i8"), ("uchar", "u8"), ("short", "i16"), ("ushort", "u16"),
   ("int", "i32"), ("uint", "u32"), ("long", "i64"), ("ulong", "u64"), ("float", "f32"),
   ("double", "f64"), ("size_t", "usize"), ("void", "c_void")] ++
    memoryHandles.map fun t => (t, "Mem")

def hostVectorBases : List String :=
  ["char", "uchar", "short", "ushort", "int", "uint", "long", "ulong", "float", "double"]

/-- The host name of a dialect type. A type that no table lists keeps its name and is left to the
host compiler. -/
def hostType (base : String) (width : Nat) : String :=
  if width = 0 then (hostScalars.lookup base).getD base
  else if base ∈ hostVectorBases then base ++ toString width
  else base

structure Layout where
  size : Nat
  align : Nat
  deriving Repr, DecidableEq

def componentSizes : List (String × Nat) :=
  [("char", 1), ("uchar", 1), ("short", 2), ("ushort", 2), ("int", 4), ("uint", 4),
   ("long", 8), ("ulong", 8), ("float", 4), ("double", 8)]

def scalarSizes : List (String × Nat) :=
  [("bool", 1), ("i8", 1), ("u8", 1), ("i16", 2), ("u16", 2), ("i32", 4), ("u32", 4),
   ("i64", 8), ("u64", 8), ("f32", 4), ("f64", 8), ("usize", 8), ("Mem", 8)]

def storedWidth (width : Nat) : Nat := if width = 3 then 4 else width

def layout? (type : String) : Option Layout :=
  match scalarSizes.lookup type with
  | some n => some ⟨n, n⟩
  | none =>
    match splitWidth type with
    | (_, 0) => none
    | (base, width) =>
      (componentSizes.lookup base).map fun n => ⟨n * storedWidth width, n * storedWidth width⟩

end KernelWrap
