import KernelWrap.Text.Blank
import KernelWrap.Text.WordTable

/-!
Word characters and identifiers. A word begins at a word character that does not follow one; an
identifier is an ASCII letter or underscore followed by ASCII letters, digits and underscores.
-/

namespace KernelWrap.Text

def inRanges (ranges : List (Nat × Nat)) (c : Char) : Bool :=
  ranges.any fun r => r.1 ≤ c.toNat && c.toNat ≤ r.2

def isIdentStart (c : Char) : Bool := c.isAlpha || c == '_'

def isIdentChar (c : Char) : Bool := c.isAlphanum || c == '_'

/-- The characters that make a word: beyond ASCII these are all letters, marks, decimal digits,
connectors and join controls. -/
def isWordChar (c : Char) : Bool :=
  if c.toNat < 128 then isIdentChar c else inRanges wordRanges c

def isIdent : List Char → Bool
  | [] => false
  | c :: s => isIdentStart c && s.all isIdentChar

def afterIdent? : List Char → Option (List Char)
  | [] => none
  | c :: s => if isIdentStart c then some (s.dropWhile isIdentChar) else none

theorem length_of_afterIdent? {s r : List Char} (h : afterIdent? s = some r) :
    r.length < s.length := by
  cases s with
  | nil => simp [afterIdent?] at h
  | cons c s =>
    simp only [afterIdent?] at h
    split at h
    · cases h
      have := (List.dropWhile_suffix (p := isIdentChar) (l := s)).length_le
      simp only [List.length_cons]
      omega
    · simp at h

end KernelWrap.Text
