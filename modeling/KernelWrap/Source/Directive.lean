import KernelWrap.Text.Word

/-!
Import directives: `using [path]` anywhere in a text, comments included, where the path is made
of identifiers and stars behind the first identifier, joined by `::`, with blanks around every
part. The paths are collected without blanks, each once, in the order of their first directive.
-/

namespace KernelWrap.Source

open Text

def afterPart? : List Char → Option (List Char)
  | '*' :: s => some s
  | s => afterIdent? s

theorem length_of_afterPart? {s r : List Char} (h : afterPart? s = some r) :
    r.length < s.length := by
  unfold afterPart? at h
  split at h
  · cases h
    simp
  · exact length_of_afterIdent? h

def afterParts (s : List Char) : List Char :=
  match h : (after? "::".toList (skipBlanks s)).bind fun t => afterPart? (skipBlanks t) with
  | none => s
  | some r =>
    have : r.length < s.length := by
      obtain ⟨t, ht, hp⟩ := Option.bind_eq_some_iff.1 h
      have h₁ := congrArg List.length (append_of_after? ht)
      have h₂ := length_of_afterPart? hp
      have h₃ := length_skipBlanks_le t
      have h₄ := length_skipBlanks_le s
      simp only [List.length_append] at h₁
      omega
    afterParts r
  termination_by s.length

theorem length_afterParts_le (s : List Char) : (afterParts s).length ≤ s.length := by
  fun_induction afterParts s with
  | case1 => exact Nat.le_refl _
  | case2 s r h hlt ih => omega

def directive? (s : List Char) : Option (List Char × List Char) := do
  let s ← after? "using".toList s
  let s ← after? ['['] (skipBlanks s)
  let s := skipBlanks s
  let r := afterParts (← afterIdent? s)
  let rest ← after? [']'] (skipBlanks r)
  return (s.take (s.length - r.length), rest)

theorem length_of_directive? {s p r : List Char} (h : directive? s = some (p, r)) :
    r.length < s.length := by
  simp only [directive?, bind, pure, Option.bind_eq_some_iff] at h
  obtain ⟨s₁, h₁, s₂, h₂, s₃, h₃, s₄, h₄, h₅⟩ := h
  cases h₅
  have e₁ := congrArg List.length (append_of_after? h₁)
  have e₂ := congrArg List.length (append_of_after? h₂)
  have e₃ := length_of_afterIdent? h₃
  have e₄ := congrArg List.length (append_of_after? h₄)
  have := length_skipBlanks_le s₁
  have := length_skipBlanks_le s₂
  have := length_skipBlanks_le (afterParts s₃)
  have := length_afterParts_le s₃
  simp only [List.length_append] at e₁ e₂ e₄
  omega

/-- The paths of all directives in what follows a character; `inWord` says that it is a word
character. -/
def directivesFrom (inWord : Bool) : List Char → List (List Char)
  | [] => []
  | c :: s =>
    match h : if inWord then none else directive? (c :: s) with
    | some (p, r) =>
      have : r.length ≤ s.length := by
        split at h
        · simp at h
        · exact Nat.le_of_lt_succ (length_of_directive? h)
      p :: directivesFrom false r
    | none => directivesFrom (isWordChar c) s
  termination_by s => s.length

def imports (s : List Char) : List String :=
  ((directivesFrom false s).map fun p => String.ofList (withoutBlanks p)).eraseDups

end KernelWrap.Source
