import KernelWrap.Text.Blank

/-!
A source text as a sequence of segments: literals, comments and the plain characters between
them. Stripping keeps plain characters and literals, drops block comments, and leaves one line
feed of each line comment, so every segment is dealt with on its own.

A literal or block comment that is never closed is no segment: its opening character is plain and
reading goes on behind it.
-/

namespace KernelWrap.Source

open Text

inductive Segment where
  | plain (c : Char)
  | literal (text : List Char)
  | block (body : List Char)
  | line (body : List Char) (ended : Bool)
  deriving Repr, DecidableEq

namespace Segment

def source : Segment → List Char
  | plain c => [c]
  | literal text => text
  | block body => '/' :: '*' :: body ++ ['*', '/']
  | line body ended => '/' :: '/' :: body ++ if ended then ['\n'] else []

def kept : Segment → List Char
  | plain c => [c]
  | literal text => text
  | block _ => []
  | line _ _ => ['\n']

/-- Line feeds of the source that the kept text lacks. -/
def lostBreaks (g : Segment) : Nat := countBreaks g.source - countBreaks g.kept

end Segment

/-- The rest of a string literal whose quote has been read: up to the closing quote, where a
backslash takes the next character with it. -/
def closeString? : List Char → Option (List Char × List Char)
  | [] => none
  | '\x22' :: s => some (['\x22'], s)
  | '\\' :: c :: s => (closeString? s).map fun p => ('\\' :: c :: p.1, p.2)
  | c :: s => if c = '\\' then none else (closeString? s).map fun p => (c :: p.1, p.2)

/-- The rest of a character literal whose quote has been read: one character, or a backslash and
one character, and the closing quote. -/
def closeChar? : List Char → Option (List Char × List Char)
  | '\\' :: c :: '\x27' :: s => some (['\\', c, '\x27'], s)
  | c :: '\x27' :: s => if c = '\\' ∨ c = '\x27' then none else some ([c, '\x27'], s)
  | _ => none

def closeBlock? : List Char → Option (List Char × List Char)
  | [] => none
  | '*' :: '/' :: s => some ([], s)
  | c :: s => (closeBlock? s).map fun p => (c :: p.1, p.2)

def lineSegment (s : List Char) : Segment × List Char :=
  match s.dropWhile (· != '\n') with
  | [] => (.line (s.takeWhile (· != '\n')) false, [])
  | _ :: r => (.line (s.takeWhile (· != '\n')) true, r)

def nextSegment (c : Char) (s : List Char) : Segment × List Char :=
  if c = '\x22' then
    match closeString? s with
    | some (t, r) => (.literal (c :: t), r)
    | none => (.plain c, s)
  else if c = '\x27' then
    match closeChar? s with
    | some (t, r) => (.literal (c :: t), r)
    | none => (.plain c, s)
  else if c = '/' then
    match s with
    | '*' :: t =>
      match closeBlock? t with
      | some (b, r) => (.block b, r)
      | none => (.plain c, s)
    | '/' :: t => lineSegment t
    | _ => (.plain c, s)
  else (.plain c, s)

theorem source_of_closeString? {s t r : List Char} (h : closeString? s = some (t, r)) :
    t ++ r = s := by
  fun_induction closeString? s generalizing t r with
  | case1 => simp at h
  | case2 s => cases h; rfl
  | case3 c s ih =>
    obtain ⟨⟨t', r'⟩, h', e⟩ := Option.map_eq_some_iff.1 h
    cases e
    simp [ih h']
  | case4 s => simp at h
  | case5 c s _ _ _ ih =>
    obtain ⟨⟨t', r'⟩, h', e⟩ := Option.map_eq_some_iff.1 h
    cases e
    simp [ih h']

theorem source_of_closeChar? {s t r : List Char} (h : closeChar? s = some (t, r)) :
    t ++ r = s := by
  unfold closeChar? at h
  split at h
  · cases h; rfl
  · split at h
    · simp at h
    · cases h; rfl
  · simp at h

theorem source_of_closeBlock? {s b r : List Char} (h : closeBlock? s = some (b, r)) :
    b ++ '*' :: '/' :: r = s := by
  fun_induction closeBlock? s generalizing b r with
  | case1 => simp at h
  | case2 s => simp_all
  | case3 c s _ ih =>
    obtain ⟨⟨t', r'⟩, h', e⟩ := Option.map_eq_some_iff.1 h
    cases e
    simp [ih h']

theorem source_lineSegment (s : List Char) :
    (lineSegment s).1.source ++ (lineSegment s).2 = '/' :: '/' :: s := by
  unfold lineSegment
  have hs : s.takeWhile (· != '\n') ++ s.dropWhile (· != '\n') = s := List.takeWhile_append_dropWhile
  split
  · next h => rw [h, List.append_nil] at hs; simpa [Segment.source] using hs
  · next c r h =>
    have hc : c = '\n' := by
      have := List.head?_dropWhile_not (· != '\n') s
      rw [h] at this
      simpa using this
    subst hc
    rw [h] at hs
    simpa [Segment.source] using hs

theorem source_nextSegment (c : Char) (s : List Char) :
    (nextSegment c s).1.source ++ (nextSegment c s).2 = c :: s := by
  unfold nextSegment
  split
  · split
    · next t r h => simp [Segment.source, source_of_closeString? h]
    · rfl
  · split
    · split
      · next t r h => simp [Segment.source, source_of_closeChar? h]
      · rfl
    · split
      · next hc =>
        subst hc
        split
        · split
          · next b r h => simp [Segment.source, source_of_closeBlock? h]
          · rfl
        · exact source_lineSegment _
        · rfl
      · rfl

theorem source_lineSegment_ne_nil (s : List Char) : (lineSegment s).1.source ≠ [] := by
  unfold lineSegment
  split <;> simp [Segment.source]

theorem source_nextSegment_ne_nil (c : Char) (s : List Char) :
    (nextSegment c s).1.source ≠ [] := by
  unfold nextSegment
  repeat' split
  all_goals first | exact source_lineSegment_ne_nil _ | simp [Segment.source]

theorem length_nextSegment_lt (c : Char) (s : List Char) :
    (nextSegment c s).2.length < (c :: s).length := by
  have h := congrArg List.length (source_nextSegment c s)
  have := List.length_pos_iff.2 (source_nextSegment_ne_nil c s)
  simp only [List.length_append] at h
  omega

def segments : List Char → List Segment
  | [] => []
  | c :: s =>
    (nextSegment c s).1 :: segments (nextSegment c s).2
  termination_by s => s.length
  decreasing_by exact length_nextSegment_lt c s

def keptText (gs : List Segment) : List Char := gs.flatMap Segment.kept

def strip (s : List Char) : List Char := keptText (segments s)

theorem source_segments (s : List Char) : (segments s).flatMap Segment.source = s := by
  fun_induction segments s with
  | case1 => rfl
  | case2 c s ih => rw [List.flatMap_cons, ih, source_nextSegment]

end KernelWrap.Source
