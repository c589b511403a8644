import KernelWrap.Digest.Blake3

/-!
The digest of a list of parts. Each part is preceded by its length, so that no two lists of parts
give the same bytes; the version of the generator stands before all of them.
-/

namespace KernelWrap.Digest

def version : String := "0.1.0"

def bytesOf (s : String) : List UInt8 := s.toByteArray.toList

def littleEndian : Nat → Nat → List UInt8
  | 0, _ => []
  | count + 1, n => n.toUInt8 :: littleEndian count (n / 256)

def framePart (part : List UInt8) : List UInt8 := littleEndian 8 part.length ++ part

def frame (parts : List (List UInt8)) : List UInt8 := bytesOf version ++ parts.flatMap framePart

def ofParts (parts : List (List UInt8)) : String := Blake3.digest (frame parts)

end KernelWrap.Digest
