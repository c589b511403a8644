import KernelWrap.Host.Syntax
import KernelWrap.Text.Blank

/-!
Paths of the host language as users write them: names and `::`, with blanks and comments between
them. A line comment runs to the end of its line, block comments nest, and documentation comments
are no comments here. Three kinds of path are read: the module of the support library, an import,
and a type. The host language has larger grammars for them, so a reader is a parameter of binding;
the one for paths of names is that of the program.
-/

namespace KernelWrap.Host

open Text

/-- What the host language reads texts as. -/
structure Reader where
  /-- The module that generated code takes its support from. -/
  support? : String → Option NamePath
  imported? : String → Option Import
  type? : String → Option Ty

inductive PathToken where
  | name (n : Name)
  | separator
  | star
  deriving Repr, DecidableEq

def isPathBlank (c : Char) : Bool := isBlank c || c.toNat == 0x200E || c.toNat == 0x200F

def afterBlock? (depth : Nat) : List Char → Option (List Char)
  | [] => none
  | '/' :: '*' :: s => afterBlock? (depth + 1) s
  | '*' :: '/' :: s =>
    match depth with
    | 0 => some s
    | d + 1 => afterBlock? d s
  | _ :: s => afterBlock? depth s

/-- What follows the comment at the start of a text. Three slashes or two stars document, unless
one more follows, and so does an exclamation mark. -/
def afterComment? (s : List Char) : Option (List Char) :=
  match s with
  | '/' :: '/' :: t =>
    if (after? ['/'] t).isSome && (after? ['/', '/'] t).isNone then none
    else if (after? ['!'] t).isSome then none
    else some (t.dropWhile (· != '\n'))
  | '/' :: '*' :: t =>
    match t with
    | '*' :: '/' :: u => some u
    | '!' :: _ => none
    | '*' :: u => if u.head? = some '*' then afterBlock? 0 t else none
    | _ => afterBlock? 0 t
  | _ => none

theorem length_of_afterBlock? {d : Nat} {s r : List Char} (h : afterBlock? d s = some r) :
    r.length < s.length := by
  fun_induction afterBlock? d s with
  | case1 => simp at h
  | case2 d s ih => have := ih h; simp only [List.length_cons]; omega
  | case3 s => cases h; simp only [List.length_cons]; omega
  | case4 s d ih => have := ih h; simp only [List.length_cons]; omega
  | case5 d c s _ _ ih => have := ih h; simp only [List.length_cons]; omega

theorem length_of_afterComment? {s r : List Char} (h : afterComment? s = some r) :
    r.length < s.length := by
  unfold afterComment? at h
  split at h
  · next t =>
    have := (List.dropWhile_suffix (p := (· != '\n')) (l := t)).length_le
    split at h
    · simp at h
    · split at h
      · simp at h
      · cases h
        simp only [List.length_cons]
        omega
  · split at h
    · cases h; simp only [List.length_cons]; omega
    · simp at h
    · split at h
      · have := length_of_afterBlock? h; simp only [List.length_cons] at *; omega
      · simp at h
    · have := length_of_afterBlock? h; simp only [List.length_cons] at *; omega
  · simp at h

def readName? (s : List Char) : Option (Name × List Char) :=
  match s with
  | 'r' :: '#' :: t =>
    (markedName? ('r' :: '#' :: t.takeWhile isNameChar)).map fun n => (n, t.dropWhile isNameChar)
  | c :: t =>
    if isNameStart c then
      some (.plain (String.ofList (c :: t.takeWhile isNameChar)), t.dropWhile isNameChar)
    else none
  | [] => none

theorem length_of_readName? {s r : List Char} {n : Name} (h : readName? s = some (n, r)) :
    r.length < s.length := by
  unfold readName? at h
  split at h
  · next t =>
    have := (List.dropWhile_suffix (p := isNameChar) (l := t)).length_le
    obtain ⟨_, _, e⟩ := Option.map_eq_some_iff.1 h
    cases e
    simp only [List.length_cons]
    omega
  · next c t _ =>
    have := (List.dropWhile_suffix (p := isNameChar) (l := t)).length_le
    split at h
    · cases h
      simp only [List.length_cons]
      omega
    · simp at h
  · simp at h

def readPart? (c : Char) (t : List Char) : Option (Option PathToken × List Char) :=
  if isPathBlank c then some (none, t)
  else
    match afterComment? (c :: t) with
    | some r => some (none, r)
    | none =>
      if c = '*' then some (some .star, t)
      else if c = ':' then
        match t with
        | ':' :: u => some (some .separator, u)
        | _ => none
      else (readName? (c :: t)).map fun p => (some (.name p.1), p.2)

theorem length_of_readPart? {c : Char} {t : List Char} {p : Option PathToken × List Char}
    (h : readPart? c t = some p) : p.2.length < (c :: t).length := by
  unfold readPart? at h
  split at h
  · cases h
    exact Nat.lt_succ_self _
  · split at h
    · next r hr =>
      cases h
      exact length_of_afterComment? hr
    · split at h
      · cases h
        exact Nat.lt_succ_self _
      · split at h
        · split at h
          · cases h
            simp only [List.length_cons]
            omega
          · cases h
        · obtain ⟨q, hq, rfl⟩ := Option.map_eq_some_iff.1 h
          exact length_of_readName? hq

def pathTokens? : List Char → Option (List PathToken)
  | [] => some []
  | c :: t =>
    match _h : readPart? c t with
    | none => none
    | some p => (pathTokens? p.2).map (p.1.toList ++ ·)
  termination_by s => s.length
  decreasing_by exact length_of_readPart? _h

def textTokens? (s : String) : Option (List PathToken) :=
  pathTokens? (if (s.toList.head?.map Char.toNat) = some 0xFEFF then s.toList.drop 1 else s.toList)

def pathKeywords : List String := ["self", "Self", "super", "crate", "try"]

def importKeywords : List String := ["self", "super", "crate", "try"]

def isFree (allowed : List String) (n : Name) : Bool :=
  n.raw || !keywords.contains n.text || allowed.contains n.text

def readNames? (allowed : List String) : List PathToken → Option (List Name)
  | [.name n] => if isFree allowed n then some [n] else none
  | .name n :: .separator :: ts =>
    if isFree allowed n then (readNames? allowed ts).map (n :: ·) else none
  | _ => none

def readPathTokens? (allowed : List String) : List PathToken → Option NamePath
  | .separator :: ts => (readNames? allowed ts).map fun ns => ⟨true, ns⟩
  | ts => (readNames? allowed ts).map fun ns => ⟨false, ns⟩

def readModule? (s : String) : Option NamePath :=
  (textTokens? s).bind (readPathTokens? pathKeywords)

def readImport? (s : String) : Option Import :=
  (textTokens? s).bind fun ts =>
    match ts.reverse with
    | .star :: .separator :: before =>
      (readPathTokens? importKeywords before.reverse).map fun p => ⟨p, true⟩
    | _ => (readPathTokens? importKeywords ts).map fun p => ⟨p, false⟩

/-- The host language takes a relative path that begins with `try` for no type. -/
def NamePath.namesType (p : NamePath) : Bool :=
  p.absolute || p.segments.head? != some (.plain "try")

def NamePath.importable (p : NamePath) : Bool := !p.segments.contains (.plain "Self")

def readType? (s : String) : Option Ty :=
  (textTokens? s).bind fun ts =>
    if ts = [.name (.plain "_")] then some .infer
    else (readPathTokens? pathKeywords ts).bind fun p =>
      if p.namesType then some (.named p []) else none

/-- Reads paths of names, without arguments. -/
def pathReader : Reader := ⟨readModule?, readImport?, readType?⟩

end KernelWrap.Host
