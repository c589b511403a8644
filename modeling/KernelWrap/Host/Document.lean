import KernelWrap.Text.Blank

/-!
Documents with optional line breaks, and their layout on lines of limited width. A group whose
text fits on the line, up to the next break behind it, is set without breaks; in a consistent
group that does not fit every break is taken, in an inconsistent one only those before text that
does not fit. A group may also have a width of its own that it must not pass.
-/

namespace KernelWrap.Host

/-- A place where the line may end: how many blanks stand there if it does not, how much deeper
the next line is, whether a comma is written before the line end, and whether it never ends. -/
structure Break where
  blanks : Nat
  offset : Int
  comma : Bool
  never : Bool
  deriving Repr, DecidableEq

inductive Style where
  | consistent | inconsistent
  deriving Repr, DecidableEq

inductive Document where
  | text (s : String)
  | break (b : Break)
  | group (offset : Int) (style : Style) (limit : Option Nat) (content : List Document)
  deriving Repr

namespace Document

def tooWide : Nat := 0xffff

def margin : Int := 89

def leastRoom : Int := 60

def tab : Int := 4

mutual

/-- The width of a document without line ends; a group past its limit is too wide for any line. -/
def width : Document → Nat
  | text s => s.utf8ByteSize
  | .break b => b.blanks
  | group _ _ limit content =>
    match limit with
    | some most => if most < widths content then widths content + tooWide else widths content
    | none => widths content

def widths : List Document → Nat
  | [] => 0
  | d :: ds => d.width + widths ds

end

/-- The width up to the next break, where `after` is that of what follows the documents. -/
def leading (after : Nat) : List Document → Nat
  | [] => after
  | .break _ :: _ => 0
  | d :: ds => d.width + leading after ds

inductive Frame where
  | flat
  | broken (style : Style)
  deriving Repr, DecidableEq

/-- The text so far, backwards; the room left on its last line; and blanks that are still to be
written when more text comes. -/
structure Page where
  written : List String
  room : Int
  pending : Nat

def Page.write (p : Page) (s : String) : Page :=
  ⟨s :: String.ofList (List.replicate p.pending ' ') :: p.written, p.room - s.utf8ByteSize, 0⟩

def Page.newLine (p : Page) (indent : Int) : Page :=
  ⟨"\n" :: p.written, max (margin - indent) leastRoom, indent.toNat⟩

def Page.setBreak (p : Page) (frame : Frame) (indent : Int) (size : Nat) (b : Break) : Page :=
  let stays := b.never ||
    match frame with
    | .flat => true
    | .broken .consistent => false
    | .broken .inconsistent => (size : Int) ≤ p.room
  if stays then { p with room := p.room - b.blanks, pending := p.pending + b.blanks }
  else (if b.comma then p.write "," else p).newLine (indent + b.offset)

mutual

def set (frame : Frame) (indent : Int) (after : Nat) (p : Page) : Document → Page
  | text s => p.write s
  | .break b => p.setBreak frame indent (b.blanks + after) b
  | group offset style limit content =>
    if p.room < ((group offset style limit content).width + after : Nat) then
      setAll (.broken style) (indent + offset) after p content
    else setAll .flat indent after p content

/-- Sets documents one after the other, with `after` as the width from behind the last one to the
next break. -/
def setAll (frame : Frame) (indent : Int) (after : Nat) (p : Page) : List Document → Page
  | [] => p
  | d :: ds => setAll frame indent after (d.set frame indent (leading after ds) p) ds

end

def render (ds : List Document) : String :=
  String.join (setAll (.broken .inconsistent) 0 0 ⟨[], margin, 0⟩ ds).written.reverse

def block (offset : Int) (content : List Document) : Document :=
  group offset .consistent none content

def fill (offset : Int) (content : List Document) : Document :=
  group offset .inconsistent none content

def space : Document := .break ⟨1, 0, false, false⟩

def softBreak : Document := .break ⟨0, 0, false, false⟩

def softEnd (offset : Int) : Document := .break ⟨0, offset, false, false⟩

def noBreak : Document := .break ⟨0, 0, false, true⟩

def lineEnd (offset : Int) : Document := .break ⟨tooWide, offset, false, false⟩

def lastComma (blanks : Nat) (offset : Int) : Document := .break ⟨blanks, offset, true, false⟩

def listed (blanks : Nat) (offset : Int) : List (List Document) → List Document
  | [] => []
  | [item] => item ++ [lastComma blanks offset]
  | item :: items => item ++ text "," :: space :: listed blanks offset items

end Document

end KernelWrap.Host
