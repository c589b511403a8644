import KernelWrap.Disk

/-!
The formatter that artifacts may be handed to. It is looked for in the directories of a search
path, one after the other, where an empty name is the working directory. No file on the disk can be
run, so each directory has a reason why the formatter was not started in it. Where it is missing
or may not be run the search goes on, and any other reason ends it.
-/

namespace KernelWrap.Formatter

def name : List Char := "rustfmt".toList

def candidates (search : String) : List Path :=
  (Text.pieces ':' search.toList).map fun directory =>
    if directory = [] then ⟨name⟩ else ⟨directory ++ '/' :: name⟩

def fault (d : Disk) (p : Path) : OsError :=
  match d.find p with
  | .ok _ => .denied
  | .error e => e

def isPassedOver : OsError → Bool
  | .missing | .notDirectory | .denied => true
  | _ => false

/-- Why none of these paths can be run, when `told` was the reason for those before. A permission
that is missing outlasts the reasons behind it. -/
def searchFault (d : Disk) (told : OsError) : List Path → OsError
  | [] => told
  | p :: ps =>
    let e := fault d p
    if isPassedOver e then searchFault d (if told = .denied then told else e) ps else e

def startFault (search : Option String) (d : Disk) : OsError :=
  match search with
  | none => .missing
  | some s => searchFault d .missing (candidates s)

end KernelWrap.Formatter
