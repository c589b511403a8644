import KernelWrap.Disk
import KernelWrap.Settings

/-!
Discovery of kernel sources: the files below a directory whose extension is one of those that are
asked for, in the order of their paths. The link of a source is its path below the directory
without its last extension. A file in place of the directory is its own only source.
-/

namespace KernelWrap

def filesIn (d : Disk) (source : Path) : List Path :=
  match d.find source with
  | .error _ => []
  | .ok (_, .file _) => [source]
  | .ok (place, .directory) =>
    (d.filesBelow place).map fun names => source.join ⟨List.intercalate ['/'] names⟩

def Input.ofFile (source file : Path) (referenced : Bool) : Option Input :=
  (file.relativeTo? source).map fun p => ⟨file, p.withExtension [], referenced⟩

def hasExtension (extensions : List String) (p : Path) : Bool :=
  match p.extension? with
  | none => false
  | some e => extensions.contains (String.ofList e)

def sortByPath {α : Type} (path : α → Path) (xs : List α) : List α :=
  xs.mergeSort fun a b => !(path b).less (path a)

def discover (d : Disk) (source : Path) (extensions : List String) (referenced : Bool) :
    List Input :=
  sortByPath Input.path
    (((filesIn d source).filter (hasExtension extensions)).filterMap fun f =>
      Input.ofFile source f referenced)

end KernelWrap
