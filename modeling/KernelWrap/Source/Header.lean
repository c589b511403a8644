import KernelWrap.Text.Word

/-!
Kernel headers: `kernel` or `__kernel`, `void`, a name, and a parenthesis up to the first closing
one. Normalizing a text puts each header on the line where it starts and writes the line feeds it
contained behind it, so that the lines below keep their numbers.
-/

namespace KernelWrap.Source

open Text

def afterBlanks? : List Char → Option (List Char)
  | [] => none
  | c :: s => if isBlank c then some (skipBlanks s) else none

def afterParens? (s : List Char) : Option (List Char) :=
  match skipBlanks s with
  | '(' :: t =>
    match t.dropWhile (· != ')') with
    | _ :: r => some r
    | [] => none
  | _ => none

def afterHeader? (s : List Char) : Option (List Char) := do
  let s ← after? "kernel".toList ((after? "__".toList s).getD s)
  let s ← after? "void".toList (← afterBlanks? s)
  afterParens? (← afterIdent? (← afterBlanks? s))

/-- Writes `c` for every `a` that has a `b` behind it, from left to right. -/
def contract (a b c : Char) : List Char → List Char
  | x :: y :: s => if x = a ∧ y = b then c :: contract a b c s else x :: contract a b c (y :: s)
  | s => s

def tighten (s : List Char) : List Char := contract ' ' ')' ')' (contract '(' ' ' '(' s)

def joinLines (header : List Char) : List Char :=
  tighten <| List.intercalate [' '] <|
    ((splitLines header).map trim).filter (· ≠ [])

def collapse (header : List Char) : List Char :=
  if countBreaks header = 0 then header
  else joinLines header ++ List.replicate (countBreaks header) '\n'

theorem length_of_after? {w s r : List Char} (h : after? w s = some r) : r.length ≤ s.length := by
  rw [append_of_after? h, List.length_append]
  omega

theorem length_of_afterBlanks? {s r : List Char} (h : afterBlanks? s = some r) :
    r.length < s.length := by
  cases s with
  | nil => simp [afterBlanks?] at h
  | cons c s =>
    simp only [afterBlanks?] at h
    split at h
    · cases h
      have := length_skipBlanks_le s
      simp only [List.length_cons]
      omega
    · simp at h

theorem length_of_afterParens? {s r : List Char} (h : afterParens? s = some r) :
    r.length < s.length := by
  unfold afterParens? at h
  have hs := length_skipBlanks_le s
  split at h
  · next t ht =>
    have hd := (List.dropWhile_suffix (p := (· != ')')) (l := t)).length_le
    rw [ht, List.length_cons] at hs
    split at h
    · next e =>
      cases h
      rw [e, List.length_cons] at hd
      omega
    · simp at h
  · simp at h

theorem length_of_afterHeader? {s r : List Char} (h : afterHeader? s = some r) :
    r.length < s.length := by
  simp only [afterHeader?, bind, Option.bind_eq_some_iff] at h
  obtain ⟨s₁, h₁, s₂, h₂, s₃, h₃, s₄, h₄, s₅, h₅, h₆⟩ := h
  have h₀ : ((after? "__".toList s).getD s).length ≤ s.length := by
    cases e : after? "__".toList s with
    | none => simp
    | some t => simpa using length_of_after? e
  have := length_of_after? h₁
  have := length_of_afterBlanks? h₂
  have := length_of_after? h₃
  have := length_of_afterBlanks? h₄
  have := length_of_afterIdent? h₅
  have := length_of_afterParens? h₆
  omega

/-- Normalizes what follows a character; `inWord` says that it is a word character. A header
begins only where no word is being continued. -/
def normalizeFrom (inWord : Bool) : List Char → List Char
  | [] => []
  | c :: s =>
    match h : if inWord then none else afterHeader? (c :: s) with
    | some r =>
      have : r.length ≤ s.length := by
        split at h
        · simp at h
        · exact Nat.le_of_lt_succ (length_of_afterHeader? h)
      collapse ((c :: s).take ((c :: s).length - r.length)) ++ normalizeFrom false r
    | none => c :: normalizeFrom (isWordChar c) s
  termination_by s => s.length

def normalize (s : List Char) : List Char := normalizeFrom false s

end KernelWrap.Source
