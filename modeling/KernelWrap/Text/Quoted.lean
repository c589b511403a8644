import KernelWrap.Text.PrintTable
import KernelWrap.Text.Word

/-!
Texts between double quotes. Quotes, backslashes, line feeds, carriage returns, tabs and the null
character have short escapes; a character that has no printed form, or that extends the one before
it, is written by its code point. The null character takes its long form before an octal digit.
-/

namespace KernelWrap.Text

def isExtending (c : Char) : Bool := inRanges extendRanges c

def isPrinted (c : Char) : Bool :=
  if c.toNat < 128 then 32 ≤ c.toNat && c.toNat < 127 else !inRanges unprintedRanges c

def hexDigits (n : Nat) : List Char := Nat.toDigits 16 n

def codePoint (c : Char) : List Char :=
  '\\' :: 'u' :: '\x7b' :: hexDigits c.toNat ++ ['\x7d']

def isOctalDigit (c : Char) : Bool := '0' ≤ c && c ≤ '7'

def quotedChar (c : Char) (next : Option Char) : List Char :=
  if c = '\x00' then
    if next.any isOctalDigit then ['\\', 'x', '0', '0'] else ['\\', '0']
  else if c = '\x22' then ['\\', '\x22']
  else if c = '\\' then ['\\', '\\']
  else if c = '\n' then ['\\', 'n']
  else if c = '\r' then ['\\', 'r']
  else if c = '\t' then ['\\', 't']
  else if isExtending c || !isPrinted c then codePoint c
  else [c]

def quotedChars : List Char → List Char
  | [] => []
  | c :: s => quotedChar c s.head? ++ quotedChars s

def quoted (s : String) : String :=
  String.ofList ('\x22' :: quotedChars s.toList ++ ['\x22'])

def shown (s : String) : String :=
  String.ofList ('\x22' :: s.toList.flatMap (fun c => quotedChar c none) ++ ['\x22'])

end KernelWrap.Text
