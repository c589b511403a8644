import KernelWrap.Source.LineMap

/-!
Stripping and the line map in one pass. The literals and comments of a text are found from left to
right; what stands between two of them is copied, each is followed by what is kept of it, and where
line feeds are lost a cut is made at the length of what was written so far.
-/

namespace KernelWrap.Source

open Text

structure Found where
  start : Nat
  segment : Segment
  deriving Repr, DecidableEq

def Found.stop (f : Found) : Nat := f.start + f.segment.source.length

def found (offset : Nat) : List Segment → List Found
  | [] => []
  | .plain _ :: gs => found (offset + 1) gs
  | g :: gs => ⟨offset, g⟩ :: found (offset + g.source.length) gs

/-- Goes on behind `last`, where `text` was written and the cuts `removed` were made for what is
before. -/
def spliceFrom (s : List Char) (last : Nat) (text : List Char) (removed : List Cut) :
    List Found → List Char × List Cut
  | [] => (text ++ s.drop last, removed)
  | f :: fs =>
    let text := text ++ (s.take f.start).drop last
    let breaks := f.segment.lostBreaks
    let removed := if 0 < breaks then removed ++ [⟨text.length, breaks⟩] else removed
    spliceFrom s f.stop (text ++ f.segment.kept) removed fs

def spliceWithLines (s : List Char) : List Char × LineMap :=
  let (text, removed) := spliceFrom s 0 [] [] (found 0 (segments s))
  (text, ⟨LineMap.assign 1 0 0 removed (splitLines text)⟩)

end KernelWrap.Source
