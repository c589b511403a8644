import KernelWrap.Host.Syntax
import KernelWrap.Host.Token

/-!
The tokens of syntax trees. A field list and the parameters of some functions end with a comma.
-/

namespace KernelWrap.Host

open Token

def sep : Token := operator "::"

def joinCommas : List (List Token) → List Token
  | [] => []
  | [ts] => ts
  | ts :: more => ts ++ operator "," :: joinCommas more

def endCommas (tss : List (List Token)) : List Token := tss.flatMap fun ts => ts ++ [operator ","]

def nameTokens : List Name → List Token
  | [] => []
  | [n] => [name n]
  | n :: ns => name n :: sep :: nameTokens ns

def NamePath.tokens (p : NamePath) : List Token :=
  (if p.absolute then [sep] else []) ++ nameTokens p.segments

mutual

def Ty.tokens : Ty → List Token
  | .named path args =>
    path.tokens ++ if args.isEmpty then [] else operator "<" :: tyTokens args ++ [operator ">"]
  | .infer => [word "_"]
  | .ref life target => operator "&" :: (life.map lifetime).toList ++ target.tokens
  | .array element n => [squares (element.tokens ++ [operator ";", number n])]
  | .slice element => [squares element.tokens]
  | .unit => [parens []]

def tyTokens : List Ty → List Token
  | [] => []
  | t :: ts => t.tokens ++ moreTyTokens ts

def moreTyTokens : List Ty → List Token
  | [] => []
  | t :: ts => operator "," :: t.tokens ++ moreTyTokens ts

end

mutual

def Expr.tokens : Expr → List Token
  | .path path args =>
    path.tokens ++
      if args.isEmpty then [] else sep :: operator "<" :: tyTokens args ++ [operator ">"]
  | .text value => [Token.text value]
  | .number n => [Token.number n]
  | .unit => [parens []]
  | .field object n => object.tokens ++ [operator ".", word n]
  | .index a n => a.tokens ++ [squares [Token.number n]]
  | .call f args => f.tokens ++ [parens (exprTokens args)]
  | .method receiver n args => receiver.tokens ++ [operator ".", word n, parens (exprTokens args)]
  | .propagate result => result.tokens ++ [operator "?"]
  | .ref target => operator "&" :: target.tokens
  | .product l r => l.tokens ++ operator "*" :: r.tokens
  | .array elements => [squares (exprTokens elements)]
  | .record path fields => path.tokens ++ [braces (fieldTokens fields)]
  | .macroCall path arg => path.tokens ++ [operator "!", parens [Token.name arg]]
  | .ignoring body => operator "|" :: word "_" :: operator "|" :: body.tokens

def exprTokens : List Expr → List Token
  | [] => []
  | e :: es => e.tokens ++ moreExprTokens es

def moreExprTokens : List Expr → List Token
  | [] => []
  | e :: es => operator "," :: e.tokens ++ moreExprTokens es

def fieldTokens : List (String × Expr) → List Token
  | [] => []
  | (n, e) :: fs => word n :: operator ":" :: e.tokens ++ operator "," :: fieldTokens fs

end

def Stmt.tokens : Stmt → List Token
  | bind changing n value =>
    word "let" :: (if changing then [word "mut"] else []) ++
      word n :: operator "=" :: value.tokens ++ [operator ";"]
  | run effect => effect.tokens ++ [operator ";"]
  | result value => value.tokens

def Attribute.tokens : Attribute → List Token
  | allow lint =>
    [operator "#", squares [word "allow", parens (nameTokens (lint.map .plain))]]
  | doc content raw =>
    [operator "#", squares [word "doc", operator "=",
      if raw then Token.rawText content else Token.text content]]

def Receiver.tokens : Receiver → List (List Token)
  | none => []
  | shared => [[operator "&", word "self"]]
  | exclusive => [[operator "&", word "mut", word "self"]]

def Param.tokens (p : Param) : List Token := Token.name p.name :: operator ":" :: p.type.tokens

namespace Function

def signatureTokens (f : Function) : List Token :=
  let params := f.receiver.tokens ++ f.params.map Param.tokens
  (if f.exported then [word "pub"] else []) ++
    [word "fn", word f.name, parens (if f.endComma then endCommas params else joinCommas params),
      operator "->"] ++ f.returns.tokens

def bodyTokens (f : Function) : List Token := f.body.flatMap Stmt.tokens

def tokens (f : Function) : List Token :=
  f.attributes.flatMap Attribute.tokens ++ f.signatureTokens ++ [braces f.bodyTokens]

end Function

def Member.tokens : Member → List Token
  | const n type value =>
    word "const" :: word n :: operator ":" :: type.tokens ++
      [operator "=", Token.text value, operator ";"]
  | function f => f.tokens

def Import.tokens (i : Import) : List Token :=
  i.path.tokens ++ if i.all then [sep, operator "*"] else []

def Item.tokens : Item → List Token
  | imports attributes tree =>
    attributes.flatMap Attribute.tokens ++ word "use" :: tree.tokens ++ [operator ";"]
  | struct attributes n fields =>
    attributes.flatMap Attribute.tokens ++ [word "pub", word "struct", Token.name n,
      braces (endCommas (fields.map fun f => word f.1 :: operator ":" :: f.2.tokens))]
  | implement attributes interface n members =>
    attributes.flatMap Attribute.tokens ++ word "impl" ::
      (match interface with
        | some p => p.tokens ++ [word "for"]
        | none => []) ++ [Token.name n, braces (members.flatMap Member.tokens)]

def tokenText (items : List Item) : String := Token.renderAll (items.flatMap Item.tokens)

end KernelWrap.Host
