import KernelWrap.Text.Blank

/-!
Paths as they are written, and the components they stand for. Repeated slashes, trailing slashes
and every `.` but a leading one are no components; two paths are the same when their components
are. The extension of a path is what follows the last dot of its file name, unless the name has
no other dot than its first character.
-/

namespace KernelWrap

structure Path where
  chars : List Char
  deriving Repr, DecidableEq, Inhabited

inductive Component where
  | root | here | up
  | name (n : List Char)
  deriving Repr, DecidableEq

namespace Component

def text : Component → List Char
  | root => ['/']
  | here => ['.']
  | up => ['.', '.']
  | name n => n

def ofName (n : List Char) : Component := if n = ['.', '.'] then up else name n

def rank : Component → Nat
  | root => 0
  | here => 1
  | up => 2
  | name _ => 3

def less (a b : Component) : Bool :=
  match a, b with
  | name m, name n => m < n
  | _, _ => a.rank < b.rank

end Component

def splitSlashes (s : List Char) : List (List Char) := Text.pieces '/' s

namespace Path

def ofString (s : String) : Path := ⟨s.toList⟩

def display (p : Path) : String := String.ofList p.chars

instance : ToString Path := ⟨display⟩

def isAbsolute (p : Path) : Bool := p.chars.head? == some '/'

def lead : List Char → List Char
  | '/' :: _ => ['/']
  | ['.'] => ['.']
  | '.' :: '/' :: _ => ['.']
  | _ => []

def body (s : List Char) : List Char := s.drop (lead s).length

def components (p : Path) : List Component :=
  let start := match lead p.chars with
    | ['/'] => [Component.root]
    | ['.'] => [Component.here]
    | _ => []
  start ++ ((splitSlashes (body p.chars)).filter fun n => n ≠ [] ∧ n ≠ ['.']).map .ofName

def same (p q : Path) : Bool := p.components == q.components

def lessComponents : List Component → List Component → Bool
  | _, [] => false
  | [], _ :: _ => true
  | a :: as, b :: bs => a.less b || (a == b && lessComponents as bs)

def less (p q : Path) : Bool := lessComponents p.components q.components

/-- Takes empty pieces and `.` from the end of a body that is written backwards. -/
def trimBack : List Char → List Char
  | '/' :: s => trimBack s
  | '.' :: '/' :: s => trimBack s
  | ['.'] => []
  | s => s

def trimEnd (s : List Char) : List Char := lead s ++ (trimBack (body s).reverse).reverse

def fileName? (p : Path) : Option (List Char) :=
  match p.components.getLast? with
  | some (.name n) => some n
  | _ => none

def splitName (n : List Char) : List Char × Option (List Char) :=
  match n.reverse.dropWhile (· != '.') with
  | _ :: stem@(_ :: _) => (stem.reverse, some (n.reverse.takeWhile (· != '.')).reverse)
  | _ => (n, none)

def extension? (p : Path) : Option (List Char) := p.fileName?.bind fun n => (splitName n).2

def setExtension (p : Path) (ext : List Char) : Path :=
  match p.fileName? with
  | none => p
  | some n =>
    let t := trimEnd p.chars
    ⟨t.take (t.length - n.length) ++ (splitName n).1 ++ if ext = [] then [] else '.' :: ext⟩

/-- The path with its extension replaced: the old one is cut off first. -/
def withExtension (p : Path) (ext : List Char) : Path :=
  match p.extension? with
  | none => p.setExtension ext
  | some old => setExtension ⟨p.chars.take (p.chars.length - old.length)⟩ ext

def join (p q : Path) : Path :=
  if q.isAbsolute then q
  else
    match p.chars.getLast? with
    | none => q
    | some c => ⟨p.chars ++ (if c = '/' then [] else ['/']) ++ q.chars⟩

def parent? (p : Path) : Option Path :=
  let b := trimBack (body p.chars).reverse
  match b, lead p.chars with
  | [], ['.'] => some ⟨[]⟩
  | [], _ => none
  | _ :: _, l => some ⟨l ++ (trimBack ((b.dropWhile (· != '/')).drop 1)).reverse⟩

def trimFront : List Char → List Char
  | '/' :: s => trimFront s
  | '.' :: '/' :: s => trimFront s
  | ['.'] => []
  | s => s

def dropNames : Nat → List Char → List Char
  | 0, s => trimFront s
  | n + 1, s => dropNames n (((trimFront s).dropWhile (· != '/')).drop 1)

def relativeTo? (p base : Path) : Option Path :=
  let k := base.components.length
  if base.components.isPrefixOf p.components then
    if k = 0 then some ⟨trimEnd p.chars⟩
    else
      let rest := dropNames (k - (lead p.chars).length) (body p.chars)
      some ⟨(trimBack rest.reverse).reverse⟩
  else none

def slashText (p : Path) : String :=
  String.ofList (List.intercalate ['/'] (p.components.map Component.text))

def extended (p : Path) (suffix : String) : Path := ⟨p.chars ++ suffix.toList⟩

theorem length_trimBack_le (s : List Char) : (trimBack s).length ≤ s.length := by
  fun_induction trimBack s with
  | case1 s ih => exact Nat.le_succ_of_le ih
  | case2 s ih => exact Nat.le_succ_of_le (Nat.le_succ_of_le ih)
  | case3 => simp
  | case4 => exact Nat.le_refl _

theorem length_lead_add_body (s : List Char) : (lead s).length + (body s).length = s.length := by
  have h : (lead s).length ≤ s.length := by
    unfold lead
    split <;> simp
  simp only [body, List.length_drop]
  omega

theorem length_drop_dropWhile_lt {b : List Char} (h : b ≠ []) (p : Char → Bool) :
    ((b.dropWhile p).drop 1).length < b.length := by
  have hb : 0 < b.length := List.length_pos_iff.2 h
  have hd : (b.dropWhile p).length ≤ b.length := (List.dropWhile_suffix p).length_le
  simp only [List.length_drop]
  omega

theorem length_parent?_lt {p q : Path} (h : p.parent? = some q) : q.chars.length < p.chars.length := by
  have hs := length_lead_add_body p.chars
  have ht := length_trimBack_le (body p.chars).reverse
  simp only [List.length_reverse] at ht
  unfold parent? at h
  generalize hb : trimBack (body p.chars).reverse = b at h ht
  cases b with
  | nil =>
    simp only at h
    split at h
    · rename_i hl
      cases h
      rw [hl] at hs
      simp at hs
      simp
      omega
    · simp at h
    · rename_i hn
      simp at hn
  | cons c b =>
    simp only [Option.some.injEq] at h
    subst h
    have h1 := length_drop_dropWhile_lt (List.cons_ne_nil c b) (· != '/')
    have h2 := length_trimBack_le (((c :: b).dropWhile (· != '/')).drop 1)
    simp only [List.length_append, List.length_reverse]
    omega

end Path

end KernelWrap
