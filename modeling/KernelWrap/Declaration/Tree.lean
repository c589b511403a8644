import KernelWrap.Declaration.Signature

/-!
Concrete trees of declarations. A tree has the tokens that a declaration was read from as its leaves
and a node for each part of the grammar. The record of a declaration can be read off its tree by
looking for nodes of a kind and for tokens below them; a tree in which something is not found has
no record.
-/

namespace KernelWrap.Declaration

inductive NodeKind where
  | root | declaration | name | parameterList | parameter | qualifiers | type | base | pointer
  deriving Repr, DecidableEq

inductive Tree where
  | token (t : Token)
  | node (kind : NodeKind) (children : List Tree)

section Building

/-- The tokens that were taken from a list, as leaves; `rest` is what was left of it. -/
def leaves (ts rest : List Token) : List Tree := (ts.take (ts.length - rest.length)).map .token

def pointerNode (ts rest : List Token) : List Tree :=
  if startsAtStar ts then [.node .pointer (leaves ts rest)] else []

def buildParameter (ts : List Token) : Except Failure (Tree × List Token) := do
  let (_, marked) ← readMarks false ts
  let (_, based) ← readBase marked
  let qualified := (readQualifiers based).2
  let (_, pointed) ← readPointer qualified
  let (_, rest) ← expect .word .noParameterName pointed
  let type := .node .base (leaves marked based) :: leaves based qualified ++
    pointerNode qualified pointed
  return (.node .parameter [.node .qualifiers (leaves ts marked), .node .type type,
    .node .name (leaves pointed rest)], rest)

theorem exists_of_buildParameter {ts rest : List Token} {p : Tree}
    (h : buildParameter ts = .ok (p, rest)) : ∃ q, readParameter ts = .ok (q, rest) := by
  simp only [buildParameter, readParameter, bind, pure, Except.bind, Except.pure] at h ⊢
  split at h
  · cases h
  · split at h
    · cases h
    · split at h
      · cases h
      · split at h
        · cases h
        · cases h
          exact ⟨_, rfl⟩

def buildParameters (ts : List Token) : Reading (List Tree) :=
  match h : buildParameter ts with
  | .error e => .error e
  | .ok (p, rest) =>
    match rest with
    | t :: rest' =>
      if t.kind = .comma then
        have : rest'.length < ts.length := by
          obtain ⟨q, hq⟩ := exists_of_buildParameter h
          have := length_of_readParameter hq
          simp only [List.length_cons] at this
          omega
        (buildParameters rest').map fun q => (p :: .token t :: q.1, q.2)
      else .ok ([p], t :: rest')
    | [] => .ok ([p], [])
  termination_by ts.length

def buildParameterList (ts : List Token) : Reading (List Tree) :=
  match ts with
  | t :: rest =>
    if t.kind = .closeParen then .ok ([], ts)
    else
      match rest with
      | u :: _ =>
        if t.kind = .void ∧ u.kind = .closeParen then .ok ([.token t], rest) else buildParameters ts
      | [] => buildParameters ts
  | [] => buildParameters ts

def buildDeclaration (ts : List Token) : Except Failure (Tree × List Token) := do
  let (kernel, ts) ← expect .kernel .noKernel ts
  let (void, ts) ← expect .void .noVoid ts
  let (name, ts) ← expect .word .noName ts
  let (opening, ts) ← expect .openParen .noOpen ts
  let (parameters, ts) ← buildParameterList ts
  let (closing, ts) ← expect .closeParen .noSeparator ts
  let list := .token opening :: parameters ++ [.token closing]
  return (.node .root [.node .declaration [.token kernel, .token void, .node .name [.token name],
    .node .parameterList list]], ts)

end Building

section Reading

mutual

def Tree.tokens : Tree → List Token
  | .token t => [t]
  | .node _ cs => treeTokens cs

def treeTokens : List Tree → List Token
  | [] => []
  | t :: ts => t.tokens ++ treeTokens ts

end

def child? (kind : NodeKind) (cs : List Tree) : Option (List Tree) :=
  cs.findSome? fun
    | .node k ds => if k = kind then some ds else none
    | .token _ => none

inductive TreeFault where
  | noDeclaration
  | otherNode (kind : NodeKind)
  | unnamedKernel
  | unnamedParameter
  | noType (parameter : String)
  | noBase (parameter : String)
  deriving Repr, DecidableEq

def NodeKind.display : NodeKind → String
  | root => "Root"
  | declaration => "KernelDecl"
  | name => "Name"
  | parameterList => "ParamList"
  | parameter => "Param"
  | qualifiers => "QualifierList"
  | type => "TypeRef"
  | base => "BaseType"
  | pointer => "PointerDeclarator"

def TreeFault.message : TreeFault → String
  | noDeclaration => "no kernel declaration node"
  | otherNode kind => s!"expected KernelDecl node, got {kind.display}"
  | unnamedKernel => "kernel declaration without a name"
  | unnamedParameter => "parameter without a name"
  | noType p => s!"parameter `{p}` has no type"
  | noBase p => s!"parameter `{p}` has no base type"

def nameOf? (cs : List Tree) : Option String :=
  (child? .name cs).bind fun ds =>
    ((treeTokens ds).find? fun t => t.kind == .word).map fun t => String.ofList t.text

def baseName? : List Token → Option String
  | [t] => some (if t.kind = .unsigned then "uint" else String.ofList t.text)
  | [t, w] => if t.kind = .unsigned then some ("u" ++ String.ofList w.text) else none
  | _ => none

def TokenKind.space? : TokenKind → Option AddressSpace
  | .space s => some s
  | _ => none

def ParameterSignature.ofTrees (cs : List Tree) : Except TreeFault ParameterSignature :=
  match nameOf? cs with
  | none => .error .unnamedParameter
  | some name =>
    match child? .type cs with
    | none => .error (.noType name)
    | some type =>
      match (child? .base type).bind fun ds => baseName? (treeTokens ds) with
      | none => .error (.noBase name)
      | some base =>
        let kinds := (treeTokens cs).map Token.kind
        .ok {
          name := name
          space := (kinds.filterMap TokenKind.space?).getLast?
          isConst := kinds.contains (.qualifier .const)
          isVolatile := kinds.contains (.qualifier .volatile)
          dataType := (splitWidth base).1
          vectorWidth := (splitWidth base).2
          isPointer := (child? .pointer type).isSome }

def parameterRecords : List Tree → Except TreeFault (List ParameterSignature)
  | [] => .ok []
  | .node .parameter cs :: ts => do
    let p ← ParameterSignature.ofTrees cs
    return p :: (← parameterRecords ts)
  | _ :: ts => parameterRecords ts

def KernelSignature.ofNode (line : Nat) (kind : NodeKind) (cs : List Tree) :
    Except TreeFault KernelSignature :=
  if kind = .declaration then
    match nameOf? cs with
    | none => .error .unnamedKernel
    | some name =>
      (parameterRecords ((child? .parameterList cs).getD [])).map fun ps => ⟨name, line, ps⟩
  else .error (.otherNode kind)

def KernelSignature.ofTree (line : Nat) (t : Tree) : Except TreeFault KernelSignature :=
  match t with
  | .node _ cs =>
    match child? .declaration cs with
    | none => .error .noDeclaration
    | some ds => ofNode line .declaration ds
  | .token _ => .error .noDeclaration

end Reading

/-- Why a line has no signature: it cannot be read, or its tree has no record. The latter is
reported where the declaration begins. -/
inductive LineFault where
  | unread (e : ParseError)
  | unfit (line column : Nat) (f : TreeFault)
  deriving Repr, DecidableEq

def readLineTree (text : List Char) (line : Nat) : Except LineFault (Option KernelSignature) :=
  match fromKernel (tokenize text) with
  | [] => .ok none
  | t :: rest =>
    match buildDeclaration (t :: rest) with
    | .error f => .error (.unread (.ofFailure line (tokenize text) f))
    | .ok (tree, _) =>
      ((KernelSignature.ofTree line tree).mapError (.unfit line (t.offset + 1))).map some

end KernelWrap.Declaration
