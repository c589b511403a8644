import KernelWrap.Declaration.Token

/-!
Kernel declarations as trees of the signature grammar

    declaration := kernel void word ( parameters )
    parameters  := nothing | void | parameter , … , parameter
    parameter   := mark* base qualifier* pointer? word
    mark        := qualifier | address space, the latter at most once
    base        := word | void | unsigned (char | short | int | long)?
    pointer     := * qualifier*

and the reader for them. A length word behind `unsigned` is the parameter name when a comma or a
closing parenthesis follows it. Reading fails at the first token that cannot continue.
-/

namespace KernelWrap.Declaration

inductive Mark where
  | qualifier (q : TypeQualifier)
  | space (s : AddressSpace)
  deriving Repr, DecidableEq

inductive BaseType where
  | named (name : List Char)
  | void
  | unsigned (word : Option (List Char))
  deriving Repr, DecidableEq

structure Parameter where
  marks : List Mark
  base : BaseType
  qualifiers : List TypeQualifier
  /-- The qualifiers behind the star of a pointer. -/
  pointer : Option (List TypeQualifier)
  name : List Char
  deriving Repr, DecidableEq

structure DeclaredKernel where
  name : List Char
  parameters : List Parameter
  deriving Repr, DecidableEq

inductive Fault where
  | noKernel | noVoid | noName | noOpen | noType | noParameterName | noSeparator
  | secondSpace | secondStar
  deriving Repr, DecidableEq

def Fault.message : Fault → String
  | noKernel => "expected `kernel`"
  | noVoid => "expected `void` return type after `kernel`"
  | noName => "expected kernel name"
  | noOpen => "expected `(`"
  | noType => "expected parameter type"
  | noParameterName => "expected parameter name"
  | noSeparator => "expected `,` or `)`"
  | secondSpace => "conflicting address space qualifiers"
  | secondStar => "pointer-to-pointer parameters are not supported"

structure Failure where
  fault : Fault
  left : List Token
  deriving Repr, DecidableEq

abbrev Reading (α : Type) := Except Failure (α × List Token)

def expect (kind : TokenKind) (fault : Fault) (ts : List Token) : Reading Token :=
  match ts with
  | t :: rest => if t.kind = kind then .ok (t, rest) else .error ⟨fault, ts⟩
  | [] => .error ⟨fault, ts⟩

def readMarks (spaced : Bool) : List Token → Reading (List Mark)
  | [] => .ok ([], [])
  | t :: ts =>
    match t.kind with
    | .qualifier q => (readMarks spaced ts).map fun p => (.qualifier q :: p.1, p.2)
    | .space s =>
      if spaced then .error ⟨.secondSpace, t :: ts⟩
      else (readMarks true ts).map fun p => (.space s :: p.1, p.2)
    | _ => .ok ([], t :: ts)

def readQualifiers : List Token → List TypeQualifier × List Token
  | [] => ([], [])
  | t :: ts =>
    match t.kind with
    | .qualifier q => (q :: (readQualifiers ts).1, (readQualifiers ts).2)
    | _ => ([], t :: ts)

def lengthWords : List (List Char) := ["char", "short", "int", "long"].map String.toList

def endsParameter : List Token → Bool
  | t :: _ => t.kind == .comma || t.kind == .closeParen
  | [] => false

def readBase (ts : List Token) : Reading BaseType :=
  match ts with
  | t :: rest =>
    match t.kind with
    | .word => .ok (.named t.text, rest)
    | .void => .ok (.void, rest)
    | .unsigned =>
      match rest with
      | w :: rest' =>
        if w.kind = .word ∧ w.text ∈ lengthWords ∧ endsParameter rest' = false then
          .ok (.unsigned (some w.text), rest')
        else .ok (.unsigned none, rest)
      | [] => .ok (.unsigned none, rest)
    | _ => .error ⟨.noType, ts⟩
  | [] => .error ⟨.noType, ts⟩

def startsAtStar : List Token → Bool
  | t :: _ => t.kind == .star
  | [] => false

def readPointer (ts : List Token) : Reading (Option (List TypeQualifier)) :=
  match ts with
  | t :: rest =>
    if t.kind = .star then
      if startsAtStar (readQualifiers rest).2 then .error ⟨.secondStar, (readQualifiers rest).2⟩
      else .ok (some (readQualifiers rest).1, (readQualifiers rest).2)
    else .ok (none, ts)
  | [] => .ok (none, ts)

def readParameter (ts : List Token) : Except Failure (Parameter × List Token) := do
  let (marks, ts) ← readMarks false ts
  let (base, ts) ← readBase ts
  let (qualifiers, ts) := readQualifiers ts
  let (pointer, ts) ← readPointer ts
  let (name, ts) ← expect .word .noParameterName ts
  return (⟨marks, base, qualifiers, pointer, name.text⟩, ts)

theorem length_of_expect {kind : TokenKind} {fault : Fault} {ts rest : List Token} {t : Token}
    (h : expect kind fault ts = .ok (t, rest)) : rest.length < ts.length := by
  unfold expect at h
  split at h
  · split at h
    · cases h; simp
    · simp at h
  · simp at h

theorem length_of_readMarks {spaced : Bool} {ts rest : List Token} {m : List Mark}
    (h : readMarks spaced ts = .ok (m, rest)) : rest.length ≤ ts.length := by
  induction ts generalizing spaced m with
  | nil => simp only [readMarks, Except.ok.injEq, Prod.mk.injEq] at h; simp [← h.2]
  | cons t ts ih =>
    simp only [readMarks] at h
    split at h
    · cases e : readMarks spaced ts with
      | error _ => simp [e, Except.map] at h
      | ok p =>
        simp only [e, Except.map, Except.ok.injEq, Prod.mk.injEq] at h
        have := ih (m := p.1) (by rw [e, ← h.2])
        simp only [List.length_cons]
        omega
    · split at h
      · simp at h
      · cases e : readMarks true ts with
        | error _ => simp [e, Except.map] at h
        | ok p =>
          simp only [e, Except.map, Except.ok.injEq, Prod.mk.injEq] at h
          have := ih (m := p.1) (by rw [e, ← h.2])
          simp only [List.length_cons]
          omega
    · simp only [Except.ok.injEq, Prod.mk.injEq] at h
      simp [← h.2]

theorem length_readQualifiers_le (ts : List Token) :
    (readQualifiers ts).2.length ≤ ts.length := by
  induction ts with
  | nil => simp [readQualifiers]
  | cons t ts ih =>
    simp only [readQualifiers]
    split
    · simp only [List.length_cons]; omega
    · simp

theorem length_of_readBase {ts rest : List Token} {b : BaseType}
    (h : readBase ts = .ok (b, rest)) : rest.length ≤ ts.length := by
  unfold readBase at h
  repeat' split at h
  all_goals
    simp only [Except.ok.injEq, Prod.mk.injEq, reduceCtorEq] at h
  all_goals
    obtain ⟨-, rfl⟩ := h
    simp only [List.length_cons]
    omega

theorem length_of_readPointer {ts rest : List Token} {p : Option (List TypeQualifier)}
    (h : readPointer ts = .ok (p, rest)) : rest.length ≤ ts.length := by
  unfold readPointer at h
  split at h
  · next t ts =>
    have := length_readQualifiers_le ts
    repeat' split at h
    all_goals
      simp only [Except.ok.injEq, Prod.mk.injEq, reduceCtorEq] at h
    all_goals
      obtain ⟨-, rfl⟩ := h
      simp only [List.length_cons]
      omega
  · simp only [Except.ok.injEq, Prod.mk.injEq] at h
    simp [← h.2]

theorem length_of_readParameter {ts rest : List Token} {p : Parameter}
    (h : readParameter ts = .ok (p, rest)) : rest.length < ts.length := by
  simp only [readParameter, bind, pure, Except.bind, Except.pure] at h
  split at h
  · simp at h
  · next h₁ =>
    have := length_of_readMarks h₁
    split at h
    · simp at h
    · next h₂ =>
      have := length_of_readBase h₂
      split at h
      · simp at h
      · next h₃ =>
        have := length_of_readPointer h₃
        have := length_readQualifiers_le
        split at h
        · simp at h
        · next h₄ =>
          have := length_of_expect h₄
          simp only [Except.ok.injEq, Prod.mk.injEq] at h
          obtain ⟨-, rfl⟩ := h
          grind

def readParameters (ts : List Token) : Reading (List Parameter) :=
  match h : readParameter ts with
  | .error e => .error e
  | .ok (p, rest) =>
    match rest with
    | t :: rest' =>
      if t.kind = .comma then
        have : rest'.length < ts.length := by
          have := length_of_readParameter h
          simp only [List.length_cons] at this
          omega
        (readParameters rest').map fun q => (p :: q.1, q.2)
      else .ok ([p], t :: rest')
    | [] => .ok ([p], [])
  termination_by ts.length

def readParameterList (ts : List Token) : Reading (List Parameter) :=
  match ts with
  | t :: rest =>
    if t.kind = .closeParen then .ok ([], ts)
    else
      match rest with
      | u :: _ =>
        if t.kind = .void ∧ u.kind = .closeParen then .ok ([], rest) else readParameters ts
      | [] => readParameters ts
  | [] => readParameters ts

def readDeclaration (ts : List Token) : Except Failure (DeclaredKernel × List Token) := do
  let (_, ts) ← expect .kernel .noKernel ts
  let (_, ts) ← expect .void .noVoid ts
  let (name, ts) ← expect .word .noName ts
  let (_, ts) ← expect .openParen .noOpen ts
  let (parameters, ts) ← readParameterList ts
  let (_, ts) ← expect .closeParen .noSeparator ts
  return (⟨name.text, parameters⟩, ts)

end KernelWrap.Declaration
