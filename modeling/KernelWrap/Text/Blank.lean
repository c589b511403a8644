/-!
Blank characters and lines of a text. A character is blank when Unicode gives it the property
White_Space; trimming takes blanks from the ends, and the lines of a text are the pieces between
its line feeds, so a text has one line more than it has line feeds.
-/

namespace KernelWrap.Text

def isBlank (c : Char) : Bool :=
  let n := c.toNat
  (9 ≤ n && n ≤ 13) || n == 0x20 || n == 0x85 || n == 0xA0 || n == 0x1680 ||
    (0x2000 ≤ n && n ≤ 0x200A) || n == 0x2028 || n == 0x2029 || n == 0x202F ||
    n == 0x205F || n == 0x3000

def skipBlanks (s : List Char) : List Char := s.dropWhile isBlank

def trim (s : List Char) : List Char := (skipBlanks (skipBlanks s).reverse).reverse

def withoutBlanks (s : List Char) : List Char := s.filter fun c => !isBlank c

def pieces (sep : Char) : List Char → List (List Char)
  | [] => [[]]
  | c :: s =>
    match pieces sep s with
    | [] => [[c]]
    | p :: ps => if c = sep then [] :: p :: ps else (c :: p) :: ps

def splitLines (s : List Char) : List (List Char) := pieces '\n' s

def withoutReturn (line : List Char) : List Char :=
  if line.getLast? = some '\r' then line.dropLast else line

/-- The lines of a text whose last line needs no line feed: an empty last piece is no line, and
a carriage return before a line feed is part of the line end. -/
def endedLines (s : List Char) : List (List Char) :=
  let lines := splitLines s
  let last := lines.getLast?.getD []
  lines.dropLast.map withoutReturn ++ if last.isEmpty then [] else [last]

def countBreaks (s : List Char) : Nat := s.count '\n'

def byteSize : List Char → Nat
  | [] => 0
  | c :: s => c.utf8Size + byteSize s

def after? : List Char → List Char → Option (List Char)
  | [], s => some s
  | _ :: _, [] => none
  | w :: ws, c :: s => if w = c then after? ws s else none

theorem pieces_ne_nil (sep : Char) (s : List Char) : pieces sep s ≠ [] := by
  cases s with
  | nil => simp [pieces]
  | cons c s =>
    unfold pieces
    split
    · simp
    · split <;> simp

theorem length_skipBlanks_le (s : List Char) : (skipBlanks s).length ≤ s.length :=
  (List.dropWhile_suffix _).length_le

theorem append_of_after? {w s r : List Char} (h : after? w s = some r) : s = w ++ r := by
  induction w generalizing s with
  | nil => simpa [after?] using h
  | cons a w ih =>
    cases s with
    | nil => simp [after?] at h
    | cons c s =>
      by_cases hc : a = c
      · subst hc
        simp only [after?, if_true] at h
        rw [ih h, List.cons_append]
      · simp [after?, hc] at h

theorem after?_append (w r : List Char) : after? w (w ++ r) = some r := by
  induction w with
  | nil => rfl
  | cons a w ih => simp [after?, ih]

end KernelWrap.Text
