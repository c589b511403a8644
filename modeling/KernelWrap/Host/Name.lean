import KernelWrap.Text.NameTable
import KernelWrap.Text.Word

/-!
Names of the host language. A keyword can be used as a name when it is marked raw, except for the
few that name the program itself; those get an underscore behind them.
-/

namespace KernelWrap.Host

open Text

structure Name where
  text : String
  raw : Bool
  deriving Repr, DecidableEq

namespace Name

def plain (text : String) : Name := ⟨text, false⟩

def display (n : Name) : String := if n.raw then "r#" ++ n.text else n.text

end Name

def selfKeywords : List String := ["self", "Self", "super", "crate", "_"]

def keywords : List String :=
  ["abstract", "as", "async", "await", "become", "box", "break", "const", "continue", "do", "dyn",
   "else", "enum", "extern", "false", "final", "fn", "for", "if", "impl", "in", "let", "loop",
   "macro", "match", "mod", "move", "mut", "override", "priv", "pub", "ref", "return", "static",
   "struct", "trait", "true", "try", "type", "typeof", "unsafe", "unsized", "use", "virtual",
   "where", "while", "yield"] ++ selfKeywords

def isNameChar (c : Char) : Bool :=
  if c.toNat < 128 then isIdentChar c
  else (inRanges wordRanges c && !inRanges unnamedRanges c) || inRanges namedRanges c

def isNameStart (c : Char) : Bool :=
  if c.toNat < 128 then isIdentStart c else isNameChar c && !inRanges innerRanges c

def isName : List Char → Bool
  | [] => false
  | c :: s => isNameStart c && s.all isNameChar

def markedName? (s : List Char) : Option Name :=
  match s with
  | 'r' :: '#' :: t =>
    if isName t && !selfKeywords.contains (String.ofList t) then some ⟨String.ofList t, true⟩
    else none
  | _ => none

/-- The host name for a dialect name, or nothing when the text is no name. The name `gen` is
marked raw as well, since later editions of the host language reserve it. -/
def Name.ofDialect? (s : String) : Option Name :=
  if selfKeywords.contains s then some (.plain (s ++ "_"))
  else if s = "gen" then some ⟨s, true⟩
  else if isName s.toList then some ⟨s, keywords.contains s⟩
  else markedName? s.toList

end KernelWrap.Host
