import KernelWrap.Host.Name
import KernelWrap.Text.Quoted

/-!
Tokens of the host language and their text. Tokens are joined by single blanks, an operator of
several characters is one token, and the contents of a bracket are set without blanks inside, of
a brace with a blank on each side unless it is empty.
-/

namespace KernelWrap.Host

open Text

inductive Bracket where
  | paren | square | brace
  deriving Repr, DecidableEq

inductive Token where
  | name (n : Name)
  | operator (s : String)
  | lifetime (s : String)
  | number (n : Nat)
  | text (value : String)
  | rawText (value : String)
  | group (bracket : Bracket) (content : List Token)
  deriving Repr

namespace Bracket

def opening : Bracket → String
  | paren => "("
  | square => "["
  | brace => "\x7b "

def closing (b : Bracket) (filled : Bool) : String :=
  match b with
  | paren => ")"
  | square => "]"
  | brace => if filled then " \x7d" else "\x7d"

end Bracket

namespace Token

mutual

def render : Token → String
  | name n => n.display
  | operator s => s
  | lifetime s => "\x27" ++ s
  | number n => toString n
  | text value => quoted value
  | rawText value => "r\"" ++ value ++ "\""
  | group b content => b.opening ++ renderAll content ++ b.closing (!content.isEmpty)

def renderAll : List Token → String
  | [] => ""
  | t :: ts => render t ++ renderRest ts

def renderRest : List Token → String
  | [] => ""
  | t :: ts => " " ++ render t ++ renderRest ts

end

def word (s : String) : Token := name (.plain s)

def parens (content : List Token) : Token := group .paren content

def squares (content : List Token) : Token := group .square content

def braces (content : List Token) : Token := group .brace content

end Token

end KernelWrap.Host
