import KernelWrap.Path

/-!
Files and directories. A place is the list of names that lead to it from the root; a path leads to
a place from the root or from the working directory. Every step of a path starts at a directory
that exists, so only the last name of a path may be free. A write replaces the whole content of
one file and touches nothing else.
-/

namespace KernelWrap

inductive OsError where
  | missing | denied | taken | notDirectory | isDirectory | tooLong
  /-- A path holds the null character. -/
  | nullName
  /-- The bytes of a file are no text. -/
  | notText
  | notRegular
  deriving Repr, DecidableEq

def OsError.message : OsError → String
  | missing => "No such file or directory (os error 2)"
  | denied => "Permission denied (os error 13)"
  | taken => "File exists (os error 17)"
  | notDirectory => "Not a directory (os error 20)"
  | isDirectory => "Is a directory (os error 21)"
  | tooLong => "File name too long (os error 36)"
  | nullName => "file name contained an unexpected NUL byte"
  | notText => "stream did not contain valid UTF-8"
  | notRegular => "the source path is neither a regular file nor a symlink to a regular file"

abbrev Place := List (List Char)

def Place.path (p : Place) : Path := ⟨'/' :: List.intercalate ['/'] p⟩

inductive Entry where
  | directory
  | file (content : ByteArray)

structure Disk where
  /-- Where paths start that do not start at the root. -/
  here : Place
  entries : List (Place × Entry)

namespace Disk

def lookup (d : Disk) (p : Place) : Option Entry :=
  if p = [] then some .directory else d.entries.lookup p

def put (d : Disk) (p : Place) (e : Entry) : Disk :=
  { d with entries := (p, e) :: d.entries.filter fun x => x.1 != p }

def longestName : Nat := 255

def longestPath : Nat := 4095

def enter (d : Disk) (p : Place) (segment : List Char) : Except OsError Place :=
  match d.lookup p with
  | none => .error .missing
  | some (.file _) => .error .notDirectory
  | some .directory =>
    if longestName < Text.byteSize segment then .error .tooLong
    else
      .ok (if segment = [] ∨ segment = ['.'] then p
        else if segment = ['.', '.'] then p.dropLast
        else p ++ [segment])

def follow (d : Disk) : Place → List (List Char) → Except OsError Place
  | p, [] => .ok p
  | p, segment :: rest =>
    match d.enter p segment with
    | .error e => .error e
    | .ok q => d.follow q rest

def locate (d : Disk) (p : Path) : Except OsError Place :=
  if p.chars = [] then .error .missing
  else if '\x00' ∈ p.chars then .error .nullName
  else if longestPath < Text.byteSize p.chars then .error .tooLong
  else d.follow (if p.isAbsolute then [] else d.here) (splitSlashes p.chars)

def find (d : Disk) (p : Path) : Except OsError (Place × Entry) :=
  match d.locate p with
  | .error e => .error e
  | .ok place =>
    match d.lookup place with
    | none => .error .missing
    | some e => .ok (place, e)

def exist (d : Disk) (p : Path) : Bool := (d.find p).toOption.isSome

def isDirectory (d : Disk) (p : Path) : Bool :=
  match d.find p with
  | .ok (_, .directory) => true
  | _ => false

def resolve (d : Disk) (p : Path) : Except OsError Path := (d.find p).map fun x => Place.path x.1

def readBytes (d : Disk) (p : Path) : Except OsError ByteArray :=
  match d.find p with
  | .error e => .error e
  | .ok (_, .directory) => .error .isDirectory
  | .ok (_, .file content) => .ok content

def readText (d : Disk) (p : Path) : Except OsError String :=
  match d.readBytes p with
  | .error e => .error e
  | .ok content =>
    match String.fromUTF8? content with
    | none => .error .notText
    | some s => .ok s

def endsWithSlash (p : Path) : Bool := p.chars.getLast? == some '/'

def trimSlashes (s : List Char) : List Char :=
  match (s.reverse.dropWhile (· == '/')).reverse with
  | [] => s
  | t => t

def locateName (d : Disk) (p : Path) : Except OsError Place := d.locate ⟨trimSlashes p.chars⟩

def writeBytes (d : Disk) (p : Path) (content : ByteArray) : Except OsError Disk :=
  match d.locateName p with
  | .error e => .error e
  | .ok place =>
    if endsWithSlash p then .error .isDirectory
    else
      match d.lookup place with
      | some .directory => .error .isDirectory
      | _ => .ok (d.put place (.file content))

def writeText (d : Disk) (p : Path) (text : String) : Except OsError Disk :=
  d.writeBytes p text.toByteArray

/-- Copies a file over another. The target is emptied before the source is read, so a file that is
copied over itself is emptied. -/
def copy (d : Disk) (source target : Path) : Except OsError Unit × Disk :=
  match d.readBytes source with
  | .error .isDirectory => (.error .notRegular, d)
  | .error e => (.error e, d)
  | .ok _ =>
    match d.writeBytes target ByteArray.empty with
    | .error e => (.error e, d)
    | .ok emptied =>
      match emptied.readBytes source with
      | .error e => (.error e, emptied)
      | .ok content =>
        match emptied.writeBytes target content with
        | .error e => (.error e, emptied)
        | .ok d => (.ok (), d)

def makeDirectory (d : Disk) (p : Path) : Except OsError Disk :=
  match d.locateName p with
  | .error e => .error e
  | .ok place =>
    match d.lookup place with
    | some _ => .error .taken
    | none => .ok (d.put place .directory)

/-- Makes a directory and those above it that are missing. A directory that is there will do. -/
def makeDirectories (d : Disk) (p : Path) : Except OsError Unit × Disk :=
  if p.components = [] then (.ok (), d)
  else
    match d.makeDirectory p with
    | .ok d => (.ok (), d)
    | .error .missing =>
      match _h : p.parent? with
      | none => (.error .missing, d)
      | some q =>
        match d.makeDirectories q with
        | (.error e, d) => (.error e, d)
        | (.ok (), d) =>
          match d.makeDirectory p with
          | .ok d => (.ok (), d)
          | .error e => (if d.isDirectory p then .ok () else .error e, d)
    | .error e => (if d.isDirectory p then .ok () else .error e, d)
termination_by p.chars.length
decreasing_by exact Path.length_parent?_lt _h

def filesBelow (d : Disk) (p : Place) : List Place :=
  d.entries.filterMap fun x =>
    match x.2 with
    | .file _ => if p.isPrefixOf x.1 then some (x.1.drop p.length) else none
    | .directory => none

def remove (d : Disk) (p : Path) : Except OsError Disk :=
  match d.find p with
  | .error e => .error e
  | .ok (_, .directory) => .error .isDirectory
  | .ok (place, .file _) => .ok { d with entries := d.entries.filter fun x => x.1 != place }

def ofFiles (here : Place) (files : List (Path × ByteArray)) : Disk :=
  files.foldl
    (fun d f =>
      let d := ((f.1.parent?.map d.makeDirectories).getD (.ok (), d)).2
      (d.writeBytes f.1 f.2).toOption.getD d)
    ((⟨here, []⟩ : Disk).makeDirectories here.path).2

def changes (before after : Disk) : List (Path × ByteArray) :=
  after.entries.filterMap fun x =>
    match x.2 with
    | .directory => none
    | .file content =>
      match before.lookup x.1 with
      | some (.file old) => if old.data = content.data then none else some (Place.path x.1, content)
      | _ => some (Place.path x.1, content)

theorem lookup_put_self (d : Disk) {p : Place} (h : p ≠ []) (e : Entry) :
    (d.put p e).lookup p = some e := by
  simp [lookup, put, h]

theorem lookup_filter_ne {p q : Place} (h : q ≠ p) (xs : List (Place × Entry)) :
    (xs.filter fun x => x.1 != p).lookup q = xs.lookup q := by
  induction xs with
  | nil => rfl
  | cons x xs ih =>
    obtain ⟨r, e⟩ := x
    by_cases hr : r = p
    · subst hr
      simp [List.lookup_cons, beq_false_of_ne h, ih]
    · simp [List.lookup_cons, hr, ih]

theorem lookup_put_of_ne (d : Disk) {p q : Place} (h : q ≠ p) (e : Entry) :
    (d.put p e).lookup q = d.lookup q := by
  by_cases hq : q = []
  · simp [lookup, hq]
  · simp [lookup, put, hq, List.lookup_cons, beq_false_of_ne h, lookup_filter_ne h]

end Disk

end KernelWrap
