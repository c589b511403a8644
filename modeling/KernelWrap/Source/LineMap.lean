import KernelWrap.Source.Segment

/-!
The source line of every line of a stripped text. A block comment takes its line feeds with it,
so later lines of the stripped text lie further down in the source; a line of the stripped text
belongs to the source line that its first character which is not blank stands on.
-/

namespace KernelWrap.Source

open Text

/-- A position of the stripped text where line feeds of the source were taken out. -/
structure Cut where
  position : Nat
  breaks : Nat
  deriving Repr, DecidableEq

def cuts (position : Nat) : List Segment → List Cut
  | [] => []
  | g :: gs =>
    let later := cuts (position + g.kept.length) gs
    if 0 < g.lostBreaks then ⟨position, g.lostBreaks⟩ :: later else later

structure LineMap where
  /-- Source lines of the stripped lines 1, 2, … -/
  lines : List Nat
  deriving Repr, DecidableEq

def totalBreaks : List Cut → Nat
  | [] => 0
  | c :: cs => c.breaks + totalBreaks cs

namespace LineMap

/-- Source lines of the given lines of a stripped text, which begin at `offset` with number
`line`, when the cuts before them amount to `shift`. A cut counts from the line on whose first
character which is not blank lies at it or behind it. -/
def assign (line offset shift : Nat) (pending : List Cut) : List (List Char) → List Nat
  | [] => []
  | l :: ls =>
    let content := offset + (l.length - (skipBlanks l).length)
    let due := pending.takeWhile fun c => c.position ≤ content
    let shift := shift + totalBreaks due
    (line + shift) ::
      assign (line + 1) (offset + l.length + 1) shift
        (pending.dropWhile fun c => c.position ≤ content) ls

def ofSegments (gs : List Segment) : LineMap :=
  ⟨assign 1 0 0 (cuts 0 gs) (splitLines (keptText gs))⟩

def lastShift (m : LineMap) : Nat :=
  match m.lines.getLast? with
  | some last => last - m.lines.length
  | none => 0

/-- Lines are numbered from 1; a number that is no line moves as far as the last line. -/
def sourceLine (m : LineMap) (line : Nat) : Nat :=
  if line = 0 then m.lastShift else m.lines[line - 1]?.getD (line + m.lastShift)

end LineMap

def stripWithLines (s : List Char) : List Char × LineMap :=
  (keptText (segments s), LineMap.ofSegments (segments s))

end KernelWrap.Source
