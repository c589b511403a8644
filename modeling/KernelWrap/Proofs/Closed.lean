import KernelWrap.Source.Segment
import Mathlib.Data.List.TakeWhile

/-! Sources whose literals and comments are closed. Such a source is given by its segments, which
must be legal where they stand: a plain character opens nothing there, and a line comment that lacks
its line feed is the last thing of all. Reading a closed source gives its segments back, whatever
follows, so that stripping works segment by segment. -/

namespace KernelWrap.Source
open Text

/-- The text between the quotes of a string: a backslash takes the next character with it. -/
inductive IsStringBody : List Char → Prop
  | nil : IsStringBody []
  | char {c : Char} {s : List Char} : c ≠ '\x22' → c ≠ '\\' → IsStringBody s → IsStringBody (c :: s)
  | escape {c : Char} {s : List Char} : IsStringBody s → IsStringBody ('\\' :: c :: s)

inductive IsLiteral : List Char → Prop
  | string {s : List Char} : IsStringBody s → IsLiteral ('\x22' :: s ++ ['\x22'])
  | char {c : Char} : c ≠ '\x27' → c ≠ '\\' → IsLiteral ['\x27', c, '\x27']
  | escape {c : Char} : IsLiteral ['\x27', '\\', c, '\x27']

/-- A character opens a literal or a comment together with the text behind it. A quote always
does, an apostrophe only with a character and another apostrophe. -/
def Opens (c : Char) (rest : List Char) : Prop :=
  c = '\x22' ∨ (∃ l, IsLiteral l ∧ l <+: c :: rest) ∨
    (c = '/' ∧ (rest.head? = some '*' ∨ rest.head? = some '/'))

def Segment.IsClosed (rest : List Char) : Segment → Prop
  | plain c => ¬ Opens c rest
  | literal t => IsLiteral t
  | block b => ¬ ['*', '/'] <:+: b
  | line b ended => '\n' ∉ b ∧ (ended = false → rest = [])

def sourceText (gs : List Segment) : List Char := gs.flatMap Segment.source

def Closed (rest : List Char) : List Segment → Prop
  | [] => True
  | g :: gs => g.IsClosed (sourceText gs ++ rest) ∧ Closed rest gs

section Lists

@[simp] theorem sourceText_nil : sourceText [] = [] := rfl

@[simp] theorem sourceText_cons (g : Segment) (gs : List Segment) :
    sourceText (g :: gs) = g.source ++ sourceText gs := rfl

@[simp] theorem sourceText_append (gs hs : List Segment) :
    sourceText (gs ++ hs) = sourceText gs ++ sourceText hs := List.flatMap_append

@[simp] theorem keptText_nil : keptText [] = [] := rfl

@[simp] theorem keptText_cons (g : Segment) (gs : List Segment) :
    keptText (g :: gs) = g.kept ++ keptText gs := rfl

@[simp] theorem keptText_append (gs hs : List Segment) :
    keptText (gs ++ hs) = keptText gs ++ keptText hs := List.flatMap_append

theorem keptText_map_plain (s : List Char) : keptText (s.map .plain) = s := by
  induction s with
  | nil => rfl
  | cons c s ih => rw [List.map_cons, keptText_cons, ih]; rfl

theorem closed_append {rest : List Char} {gs hs : List Segment} :
    Closed rest (gs ++ hs) ↔ Closed (sourceText hs ++ rest) gs ∧ Closed rest hs := by
  induction gs with
  | nil => simp [Closed]
  | cons g gs ih =>
    rw [List.cons_append, Closed, Closed, ih, sourceText_append, List.append_assoc, and_assoc]

end Lists

theorem not_opens {c : Char} (hq : c ≠ '\x22') (ha : c ≠ '\x27') (hs : c ≠ '/') (rest : List Char) :
    ¬ Opens c rest := by
  rintro (h | ⟨l, hl, z, hz⟩ | ⟨h, -⟩)
  · exact hq h
  · cases hl with
    | string _ => exact hq (List.cons.inj hz).1.symm
    | char _ _ => exact ha (List.cons.inj hz).1.symm
    | escape => exact ha (List.cons.inj hz).1.symm
  · exact hs h

theorem closed_map_plain {w : List Char} (h : ∀ c ∈ w, c ≠ '\x22' ∧ c ≠ '\x27' ∧ c ≠ '/')
    (rest : List Char) : Closed rest (w.map .plain) := by
  induction w with
  | nil => trivial
  | cons c w ih =>
    obtain ⟨hq, ha, hs⟩ := h c List.mem_cons_self
    exact ⟨not_opens hq ha hs _, ih fun d hd => h d (List.mem_cons_of_mem c hd)⟩

section Reading

theorem closeString?_of_isStringBody {b : List Char} (h : IsStringBody b) (r : List Char) :
    closeString? (b ++ '\x22' :: r) = some (b ++ ['\x22'], r) := by
  induction h with
  | nil => simp [closeString?]
  | @char c s hq hb _ ih =>
    rw [List.cons_append, closeString?]
    · simp [hb, ih]
    · exact hq
    · intro d t hc
      exact absurd hc hb
  | escape _ ih => simp [closeString?, ih]

theorem isLiteral_of_closeChar? {s t r : List Char} (h : closeChar? s = some (t, r)) :
    IsLiteral ('\x27' :: t) := by
  unfold closeChar? at h
  split at h
  · cases h; exact .escape
  · split at h
    · cases h
    · next hc =>
      cases h
      rw [not_or] at hc
      exact .char hc.2 hc.1
  · cases h

theorem closeBlock?_of_not_infix {b : List Char} (h : ¬ ['*', '/'] <:+: b) (r : List Char) :
    closeBlock? (b ++ '*' :: '/' :: r) = some (b, r) := by
  induction b with
  | nil => simp [closeBlock?]
  | cons c b ih =>
    have hb := ih fun hi => h (hi.trans (List.suffix_cons c b).isInfix)
    rw [List.cons_append, closeBlock?, hb]
    · rfl
    · intro s hc hs
      subst hc
      cases b with
      | nil => cases hs
      | cons d b =>
        cases hs
        exact h ⟨[], b, rfl⟩

theorem nextSegment_plain {c : Char} {rest : List Char} (h : ¬ Opens c rest) :
    nextSegment c rest = (.plain c, rest) := by
  rw [Opens, not_or, not_or] at h
  obtain ⟨hq, hl, hs⟩ := h
  unfold nextSegment
  rw [if_neg hq]
  split
  · next hc =>
    split
    · next t r e =>
      subst hc
      refine absurd ⟨_, isLiteral_of_closeChar? e, ?_⟩ hl
      exact ⟨r, by rw [← source_of_closeChar? e]; rfl⟩
    · rfl
  · split
    · next hc =>
      rw [not_and] at hs
      split
      · exact absurd (.inl rfl) (hs hc)
      · exact absurd (.inr rfl) (hs hc)
      · rfl
    · rfl

theorem nextSegment_literal {l : List Char} (h : IsLiteral l) (rest : List Char) :
    ∃ c s, l = c :: s ∧ nextSegment c (s ++ rest) = (.literal l, rest) := by
  cases h with
  | @string b hb =>
    refine ⟨'\x22', b ++ ['\x22'], rfl, ?_⟩
    simp [nextSegment, closeString?_of_isStringBody hb]
  | @char c hc hb =>
    refine ⟨'\x27', [c, '\x27'], rfl, ?_⟩
    simp [nextSegment, closeChar?, hc, hb]
  | @escape c => exact ⟨'\x27', ['\\', c, '\x27'], rfl, by simp [nextSegment, closeChar?]⟩

theorem lineSegment_of_notMem {b : List Char} (h : '\n' ∉ b) (rest : List Char) :
    lineSegment (b ++ '\n' :: rest) = (.line b true, rest) := by
  have hb : ∀ c ∈ b, (c != '\n') = true := fun c hc => bne_iff_ne.2 fun e => h (e ▸ hc)
  rw [lineSegment, List.dropWhile_append_of_pos hb, List.takeWhile_append_of_pos hb]
  simp

theorem lineSegment_of_notMem_end {b : List Char} (h : '\n' ∉ b) :
    lineSegment b = (.line b false, []) := by
  have hb : ∀ c ∈ b, (c != '\n') = true := fun c hc => bne_iff_ne.2 fun e => h (e ▸ hc)
  unfold lineSegment
  rw [List.dropWhile_eq_nil_iff.2 hb, List.takeWhile_eq_self_iff.2 hb]

theorem nextSegment_of_isClosed {g : Segment} {rest : List Char} (h : g.IsClosed rest) :
    ∃ c s, g.source = c :: s ∧ nextSegment c (s ++ rest) = (g, rest) := by
  cases g with
  | plain c => exact ⟨c, [], rfl, nextSegment_plain h⟩
  | literal l => exact nextSegment_literal h rest
  | block b =>
    refine ⟨'/', '*' :: b ++ ['*', '/'], rfl, ?_⟩
    have := closeBlock?_of_not_infix h rest
    simp [nextSegment, this]
  | line b ended =>
    obtain ⟨hb, he⟩ := h
    refine ⟨'/', _, rfl, ?_⟩
    cases ended with
    | true =>
      have := lineSegment_of_notMem hb rest
      simp [nextSegment, this]
    | false =>
      have := lineSegment_of_notMem_end hb
      simp [nextSegment, he rfl, this]

theorem segments_append {gs : List Segment} {rest : List Char} (h : Closed rest gs) :
    segments (sourceText gs ++ rest) = gs ++ segments rest := by
  induction gs with
  | nil => rfl
  | cons g gs ih =>
    obtain ⟨c, s, hs, hn⟩ := nextSegment_of_isClosed h.1
    rw [sourceText_cons, hs, List.cons_append, List.cons_append, segments, List.append_assoc, hn,
      ih h.2, List.cons_append]

theorem segments_sourceText {gs : List Segment} (h : Closed [] gs) :
    segments (sourceText gs) = gs := by
  have := segments_append h
  rwa [List.append_nil, segments, List.append_nil] at this

end Reading

end KernelWrap.Source
