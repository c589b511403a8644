import KernelWrap.Host.Document
import KernelWrap.Host.Syntax
import KernelWrap.Text.Quoted

/-!
How syntax trees are laid out. Arguments, parameters and fields stand on one line or each on a
line of its own, with a comma behind every one; a chain of method calls that does not fit starts
each call on a new line. At the start of a statement a call stays on the line of its receiver when
the receiver is no longer than the indentation.
-/

namespace KernelWrap.Host

open Document

def NamePath.display (p : NamePath) : String :=
  (if p.absolute then "::" else "") ++ "::".intercalate (p.segments.map Name.display)

def bracketed (items : List (List Document)) : List Document :=
  if items.isEmpty then [] else [block tab (softBreak :: listed 0 (-tab) items)]

mutual

def Ty.layout : Ty → List Document
  | .named path args =>
    text path.display ::
      if args.isEmpty then [] else text "<" :: bracketed (tyLayouts args) ++ [text ">"]
  | .infer => [text "_"]
  | .ref life target =>
    text "&" :: (life.map fun l => text ("\x27" ++ l ++ " ")).toList ++ target.layout
  | .array element n => text "[" :: element.layout ++ [text ("; " ++ toString n ++ "]")]
  | .slice element => text "[" :: element.layout ++ [text "]"]
  | .unit => [text "()"]

def tyLayouts : List Ty → List (List Document)
  | [] => []
  | t :: ts => t.layout :: tyLayouts ts

end

namespace Expr

def isShort : Expr → Bool
  | path ⟨false, [n]⟩ [] => n.display.utf8ByteSize ≤ tab.toNat
  | _ => false

def isBlock : Expr → Bool
  | array _ | record _ _ | ignoring _ | unit => true
  | _ => false

def chainBreak (start : Bool) (receiver : Expr) : List Document :=
  if start && receiver.isShort then [] else [softBreak]

inductive Place where
  | whole | operand
  deriving DecidableEq

/-- An expression that is no chain; as an operand it gives back the indentation of its chain. -/
def atom : Place → List Document → List Document
  | .whole, ds => ds
  | .operand, ds => [block (-tab) ds]

def chain : Place → List Document → List Document
  | .whole, ds => [block tab ds]
  | .operand, ds => ds

mutual

/-- The layout of an expression; `start` says that it stands at the start of a statement. -/
def layout (place : Place) (start : Bool) : Expr → List Document
  | path p args =>
    atom place (Document.text p.display ::
      if args.isEmpty then []
      else Document.text "::<" :: bracketed (tyLayouts args) ++ [Document.text ">"])
  | text value => atom place [Document.text (Text.quoted value)]
  | number n => atom place [Document.text (toString n)]
  | unit => atom place [Document.text "()"]
  | field object name =>
    chain place (layout .operand start object ++ chainBreak start object ++
      [Document.text ("." ++ name)])
  | index a n => layout place start a ++ [Document.text ("[" ++ toString n ++ "]")]
  | call f args =>
    layout place (start && place = .whole) f ++
      Document.text "(" :: arguments args ++ [Document.text ")"]
  | method receiver name args =>
    chain place (layout .operand start receiver ++ chainBreak start receiver ++
      [Document.text ("." ++ name),
        block (if start && place = .whole && receiver.isShort then -tab else 0)
          (Document.text "(" :: arguments args ++ [Document.text ")"])])
  | propagate result => layout place start result ++ [Document.text "?"]
  | ref target => atom place (Document.text "&" :: layout .whole false target)
  | product l r =>
    atom place [fill tab (fill (-tab) (layout .whole false l) :: space ::
      Document.text "* " :: layout .whole false r)]
  | array elements =>
    atom place (Document.text "[" :: bracketed (layouts elements) ++ [Document.text "]"])
  | record p fields =>
    atom place
      [group tab .consistent (some 34)
        (fill (-tab) [Document.text p.display] :: Document.text " \x7b" :: space ::
          listed 1 (-tab) (fieldLayouts fields)),
      Document.text "\x7d"]
  | macroCall p arg =>
    atom place
      [Document.text (p.display ++ "!("),
        block tab [softBreak, fill 0 [Document.text arg.display], softEnd (-tab)],
        Document.text ")"]
  | ignoring body => atom place (Document.text "|_| " :: layout .whole false body)

def arguments : List Expr → List Document
  | [] => []
  | e :: es =>
    if es.isEmpty && e.isBlock then layout .whole false e
    else [block tab (softBreak :: listed 0 (-tab) (layout .whole false e :: layouts es))]

def layouts : List Expr → List (List Document)
  | [] => []
  | e :: es => layout .whole false e :: layouts es

def fieldLayouts : List (String × Expr) → List (List Document)
  | [] => []
  | (n, e) :: fs => [Document.text (n ++ ": "), fill 0 (layout .whole false e)] :: fieldLayouts fs

end

end Expr

def Stmt.layout : Stmt → Document
  | bind changing n value =>
    fill 0 (text "let " :: text ((if changing then "mut " else "") ++ n) :: text " = " :: noBreak ::
      value.layout .whole false ++ [text ";"])
  | run effect => fill 0 (effect.layout .whole true ++ [text ";"])
  | result value => fill 0 (value.layout .whole true)

def hasClosedBlocks (depth : Nat) : List Char → Bool
  | '/' :: '*' :: s => hasClosedBlocks (depth + 1) s
  | '*' :: '/' :: s =>
    match depth with
    | 0 => false
    | d + 1 => hasClosedBlocks d s
  | _ :: s => hasClosedBlocks depth s
  | [] => depth == 0

def trimBlanks (s : List Char) : List Char := (s.reverse.dropWhile (· == ' ')).reverse

def trimInnerLines (s : List Char) : List Char :=
  let pieces := Text.splitLines s
  List.intercalate ['\n'] (pieces.dropLast.map trimBlanks ++ [pieces.getLast?.getD []])

def Attribute.layout : Attribute → List Document
  | allow lint => [text ("#[allow(" ++ "::".intercalate lint ++ ")]"), space]
  | doc content _ =>
    let s := content.toList
    if !s.contains '\n' && s.head? != some '/' then
      [text "///", text (String.ofList (trimBlanks s)), lineEnd 0]
    else if hasClosedBlocks 0 s && s.head? != some '*' && s.head? != some '/' then
      [text "/**", text (String.ofList (trimInnerLines s)), text "*/", lineEnd 0]
    else [text ("#[doc = " ++ Text.quoted content ++ "]"), space]

def Receiver.layout : Receiver → List (List Document)
  | none => []
  | shared => [[text "&self"]]
  | exclusive => [[text "&mut self"]]

def Param.layout (p : Param) : List Document := text (p.name.display ++ ": ") :: p.type.layout

def inBraces : List (List Document) → List Document
  | [] => []
  | [line] => line ++ [lineEnd (-tab)]
  | line :: lines => line ++ lineEnd 0 :: inBraces lines

def Function.layout (f : Function) : List Document :=
  let params := f.receiver.layout ++ f.params.map Param.layout
  f.attributes.flatMap Attribute.layout ++
    [block tab
      ([text ((if f.exported then "pub " else "") ++ "fn "), text f.name, text "(", noBreak] ++
        (if params.isEmpty then [] else [block 0 (softBreak :: listed 0 (-tab) params)]) ++
        [text ")", block (-tab) (text " -> " :: f.returns.layout), text " \x7b", lineEnd 0] ++
        inBraces (f.body.map fun s => [s.layout])),
      text "\x7d"]

def Member.layout : Member → List Document
  | const n type value =>
    [block 0 (text ("const " ++ n ++ ": ") :: type.layout ++
      [text " = ", noBreak, text (Text.quoted value), text ";"])]
  | function f => f.layout

def Import.layout (i : Import) : Document :=
  text ("use " ++ i.path.display ++ (if i.all then "::*" else "") ++ ";")

def Item.layout : Item → List Document
  | imports attributes tree => attributes.flatMap Attribute.layout ++ [tree.layout]
  | struct attributes n fields =>
    attributes.flatMap Attribute.layout ++
      [block tab (text "pub struct " :: text n.display :: text " \x7b" :: lineEnd 0 ::
        inBraces (fields.map fun f => text (f.1 ++ ": ") :: f.2.layout ++ [text ","])),
      text "\x7d"]
  | implement attributes interface n members =>
    attributes.flatMap Attribute.layout ++
      [block tab
        (fill (-tab)
          (block tab [text "impl"] :: text " " ::
            (match interface with
              | some p => [text p.display, space, text "for "]
              | none => []) ++ [text n.display]) ::
          text " \x7b" :: lineEnd 0 :: inBraces (members.map Member.layout)),
      text "\x7d"]

def itemText (items : List Item) : String :=
  Document.render [block 0 (items.flatMap fun i => i.layout ++ [lineEnd 0])]

end KernelWrap.Host
