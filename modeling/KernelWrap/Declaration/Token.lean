import KernelWrap.Text.Word

/-!
The tokens of a declaration line. Words and numbers are as long as they can be, six punctuation
characters are tokens of their own, and any other character that is not skipped is one unknown
token. Every token knows the byte offset at which it begins.
-/

namespace KernelWrap.Declaration

open Text

inductive AddressSpace where
  | globalMem | localMem | constantMem | privateMem | readOnly | writeOnly | readWrite
  deriving Repr, DecidableEq

inductive TypeQualifier where
  | const | volatile | restrict
  deriving Repr, DecidableEq

inductive TokenKind where
  | kernel | void | unsigned
  | space (s : AddressSpace)
  | qualifier (q : TypeQualifier)
  | star | openParen | closeParen | comma | openBrace | semicolon
  | word | number | unknown
  deriving Repr, DecidableEq

structure Token where
  kind : TokenKind
  text : List Char
  offset : Nat
  deriving Repr, DecidableEq

def dialectKeywords : List (String × TokenKind) :=
  [("kernel", .kernel),
   ("global", .space .globalMem), ("local", .space .localMem),
   ("constant", .space .constantMem), ("private", .space .privateMem),
   ("read_only", .space .readOnly), ("write_only", .space .writeOnly),
   ("read_write", .space .readWrite),
   ("restrict", .qualifier .restrict)]

def plainKeywords : List (String × TokenKind) :=
  [("void", .void), ("const", .qualifier .const), ("volatile", .qualifier .volatile),
   ("unsigned", .unsigned)]

def keywords : List (List Char × TokenKind) :=
  (dialectKeywords ++ plainKeywords).map (fun k => (k.1.toList, k.2)) ++
    dialectKeywords.map fun k => ('_' :: '_' :: k.1.toList, k.2)

def wordKind (text : List Char) : TokenKind := (keywords.lookup text).getD .word

def symbolKind (c : Char) : TokenKind :=
  if c = '*' then .star
  else if c = '(' then .openParen
  else if c = ')' then .closeParen
  else if c = ',' then .comma
  else if c = '\x7b' then .openBrace
  else if c = ';' then .semicolon
  else .unknown

def isGap (c : Char) : Bool := c == ' ' || c == '\t' || c == '\r' || c == '\n' || c == '\x0c'

def tokenText (c : Char) (s : List Char) : List Char :=
  if isIdentStart c then c :: s.takeWhile isIdentChar
  else if c.isDigit then c :: s.takeWhile Char.isDigit
  else [c]

def tokenKind (c : Char) (text : List Char) : TokenKind :=
  if isIdentStart c then wordKind text else if c.isDigit then .number else symbolKind c

def afterToken (c : Char) (s : List Char) : List Char :=
  if isIdentStart c then s.dropWhile isIdentChar
  else if c.isDigit then s.dropWhile Char.isDigit
  else s

theorem tokenText_append_afterToken (c : Char) (s : List Char) :
    tokenText c s ++ afterToken c s = c :: s := by
  unfold tokenText afterToken
  split
  · simp
  · split <;> simp

theorem length_afterToken_le (c : Char) (s : List Char) : (afterToken c s).length ≤ s.length := by
  unfold afterToken
  split
  · exact (List.dropWhile_suffix _).length_le
  · split
    · exact (List.dropWhile_suffix _).length_le
    · exact Nat.le_refl _

def tokenizeFrom (offset : Nat) : List Char → List Token
  | [] => []
  | c :: s =>
    if isGap c then tokenizeFrom (offset + 1) s
    else
      have := length_afterToken_le c s
      let text := tokenText c s
      ⟨tokenKind c text, text, offset⟩ :: tokenizeFrom (offset + byteSize text) (afterToken c s)
  termination_by s => s.length

def tokenize (s : List Char) : List Token := tokenizeFrom 0 s

def Token.stop (t : Token) : Nat := t.offset + byteSize t.text

end KernelWrap.Declaration
