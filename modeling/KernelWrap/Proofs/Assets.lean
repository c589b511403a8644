import KernelWrap.Discovery
import KernelWrap.Proofs.Disks
import KernelWrap.SourceUnit

/-! Where referenced sources are copied to. The extension of a discovered source is cut off to make
its link and put on again to make its asset. That gives the path of the source back just when
nothing in front of the extension can be taken for another extension; then no two sources have the
same asset, and the path in a wrapper leads to the copy of its own source. -/

namespace KernelWrap

namespace Path

theorem splitName_dot {stem ext : List Char} (hs : stem ≠ []) (he : '.' ∉ ext) :
    splitName (stem ++ '.' :: ext) = (stem, some ext) := by
  have hr : (stem ++ '.' :: ext).reverse = ext.reverse ++ '.' :: stem.reverse := by simp
  have hp : ∀ c ∈ ext.reverse, (c != '.') = true :=
    fun c hc => bne_iff_ne.2 fun e => he (e ▸ List.mem_reverse.1 hc)
  obtain ⟨c, r, hc⟩ := List.exists_cons_of_ne_nil (mt List.reverse_eq_nil_iff.1 hs)
  rw [splitName, hr, List.dropWhile_append_of_pos hp, List.takeWhile_append_of_pos hp,
    List.dropWhile_cons_of_neg (by decide), List.takeWhile_cons_of_neg (by decide), List.append_nil,
    List.reverse_reverse, hc]
  simp only [← hc, List.reverse_reverse]

theorem splitName_cases (n : List Char) : splitName n = (n, none) ∨
    ∃ stem ext, splitName n = (stem, some ext) ∧ n = stem ++ '.' :: ext ∧ stem ≠ [] ∧ '.' ∉ ext := by
  unfold splitName
  split
  · next c x xs e =>
    have hc : c = '.' := by
      have h := List.head_dropWhile_not (· != '.') (l := n.reverse) (by rw [e]; exact List.cons_ne_nil _ _)
      simpa [e] using h
    have hn : n.reverse = n.reverse.takeWhile (· != '.') ++ '.' :: x :: xs := by
      rw [← hc, ← e, hc, List.takeWhile_append_dropWhile]
    refine .inr ⟨_, _, rfl, ?_, by simp, fun h => ?_⟩
    · rw [← n.reverse_reverse]
      conv_lhs => rw [hn]
      simp
    · simpa using List.mem_takeWhile_imp (List.mem_reverse.1 h)
  · exact .inl rfl

variable {dirs : List (List Char)} {n : List Char}

section Extension

variable (hd : ∀ m ∈ dirs, IsName m)
include hd

theorem fileName?_below (hn : IsName n) : (⟨below dirs ++ n⟩ : Path).fileName? = some n := by
  rw [fileName?, components_below hd hn.toIsPart, List.getLast?_concat, hn.ofName]

theorem fileName?_up : (⟨below dirs ++ ['.', '.']⟩ : Path).fileName? = none := by
  have hu : IsPart ['.', '.'] := ⟨by decide, by decide, by decide⟩
  rw [fileName?, components_below hd hu, List.getLast?_concat]
  rfl

theorem setExtension_below (hn : IsName n) (ext : List Char) :
    (⟨below dirs ++ n⟩ : Path).setExtension ext =
      ⟨below dirs ++ ((splitName n).1 ++ if ext = [] then [] else '.' :: ext)⟩ := by
  rw [setExtension, fileName?_below hd hn]
  simp only
  rw [trimEnd_below hd hn.toIsPart, List.length_append, Nat.add_sub_cancel, List.take_left,
    List.append_assoc]

theorem withExtension_up (ext : List Char) :
    (⟨below dirs ++ ['.', '.']⟩ : Path).withExtension ext = ⟨below dirs ++ ['.', '.']⟩ := by
  have hf := fileName?_up hd
  rw [withExtension, extension?, hf]
  simp only [Option.bind_none]
  rw [setExtension, hf]

theorem withExtension_of_none (hn : IsName n) (h : (splitName n).2 = none) (ext : List Char) :
    (⟨below dirs ++ n⟩ : Path).withExtension ext =
      ⟨below dirs ++ (n ++ if ext = [] then [] else '.' :: ext)⟩ := by
  have hs : (splitName n).1 = n := by
    obtain e | ⟨_, _, e, -⟩ := splitName_cases n
    · rw [e]
    · rw [e] at h
      cases h
  rw [withExtension, extension?, fileName?_below hd hn, Option.bind_some, h]
  simp only
  rw [setExtension_below hd hn, hs]

theorem withExtension_of_some {stem old : List Char} (hn : IsName (stem ++ '.' :: old))
    (hs : stem ≠ []) (ho : '.' ∉ old) (ext : List Char) :
    (⟨below dirs ++ (stem ++ '.' :: old)⟩ : Path).withExtension ext =
      ⟨below dirs ++ (stem ++ if stem = ['.'] then ['.'] else if ext = [] then [] else '.' :: ext)⟩ := by
  have hcut : (below dirs ++ (stem ++ '.' :: old)).take
      ((below dirs ++ (stem ++ '.' :: old)).length - old.length) = below dirs ++ (stem ++ ['.']) := by
    have e : below dirs ++ (stem ++ '.' :: old) = (below dirs ++ (stem ++ ['.'])) ++ old := by simp
    rw [e, List.length_append, Nat.add_sub_cancel, List.take_left]
  rw [withExtension, extension?, fileName?_below hd hn, Option.bind_some, splitName_dot hs ho]
  simp only
  rw [hcut]
  by_cases h : stem = ['.']
  · subst h
    rw [if_pos rfl, setExtension, List.singleton_append, fileName?_up hd]
  · have hdot : IsName (stem ++ ['.']) := by
      refine ⟨⟨by simp, ?_, by simpa using hs⟩, fun e => h ?_⟩
      · have hu := hn.unsplit
        simp only [List.mem_append, List.mem_cons, not_or] at hu ⊢
        exact ⟨hu.1, by decide, List.not_mem_nil⟩
      · exact List.append_cancel_right (e : stem ++ ['.'] = ['.'] ++ ['.'])
    rw [if_neg h, setExtension_below hd hdot, splitName_dot hs List.not_mem_nil]

end Extension

/-- A file name with a single extension: the stem before it has none, and another file could be
called by the stem alone. -/
def SingleExtension (n : List Char) : Prop :=
  (splitName n).2 ≠ some [] ∧ (splitName n).1 ≠ ['.'] ∧ (splitName (splitName n).1).2 = none

instance (n : List Char) : Decidable (SingleExtension n) := inferInstanceAs (Decidable (_ ∧ _ ∧ _))

theorem withExtension_withExtension_nil {stem ext : List Char} (hd : ∀ m ∈ dirs, IsName m)
    (hn : IsName (stem ++ '.' :: ext)) (hs : stem ≠ []) (he : '.' ∉ ext) :
    ((⟨below dirs ++ (stem ++ '.' :: ext)⟩ : Path).withExtension []).withExtension ext =
      ⟨below dirs ++ (stem ++ '.' :: ext)⟩ ↔ SingleExtension (stem ++ '.' :: ext) := by
  have hsingle : SingleExtension (stem ++ '.' :: ext) ↔
      ext ≠ [] ∧ stem ≠ ['.'] ∧ (splitName stem).2 = none := by
    rw [SingleExtension, splitName_dot hs he]
    simp
  rw [hsingle, withExtension_of_some hd hn hs he, if_pos rfl]
  -- A stem that is `.` or `..` leaves `..` as link, which is no name and takes no extension.
  have hup : 2 < (stem ++ '.' :: ext).length →
      (⟨below dirs ++ ['.', '.']⟩ : Path).withExtension ext ≠ ⟨below dirs ++ (stem ++ '.' :: ext)⟩ := by
    intro hl h
    rw [withExtension_up hd, Path.mk.injEq, List.append_cancel_left_eq] at h
    exact absurd (congrArg List.length h) hl.ne
  by_cases h1 : stem = ['.']
  · subst h1
    have hx : ext ≠ [] := by
      rintro rfl
      exact hn.notUp rfl
    exact iff_of_false (hup (by simpa using List.length_pos_iff.2 hx)) fun h => h.2.1 rfl
  rw [if_neg h1, List.append_nil]
  by_cases h2 : stem = ['.', '.']
  · subst h2
    exact iff_of_false (hup (by simp)) fun h => by simp [splitName] at h
  have hstem : IsName stem :=
    ⟨⟨hs, fun h => hn.unsplit (List.mem_append_left _ h), h1⟩, h2⟩
  obtain e | ⟨s, old, e, hso, hs0, ho⟩ := splitName_cases stem
  · rw [withExtension_of_none hd hstem (by rw [e]), e, Path.mk.injEq, List.append_cancel_left_eq,
      List.append_cancel_left_eq]
    by_cases hx : ext = [] <;> simp [hx, h1]
  · refine iff_of_false (fun h => ?_) fun h => by simp [e] at h
    rw [hso, withExtension_of_some hd (hso ▸ hstem) hs0 ho, Path.mk.injEq,
      List.append_cancel_left_eq] at h
    have hl := congrArg List.length h
    split_ifs at hl <;> simp at hl
    omega

def HasSingleExtension (p : Path) : Prop := ∃ n, p.fileName? = some n ∧ SingleExtension n

theorem slashText_ofNames {names : List (List Char)} (hn : ∀ n ∈ names, IsName n) (hne : names ≠ []) :
    Path.ofString (ofNames names).slashText = ofNames names := by
  have hm : names.map (Component.text ∘ .name) = names := List.map_id names
  rw [slashText, components_ofNames hn hne, List.map_map, hm, Path.ofString, String.toList_ofList]
  rfl

end Path

open KernelWrap.Path

section Discovery

variable {d : Disk} {source : Path} {extensions : List String} {referenced : Bool} {i j : Input}

theorem mem_discover : i ∈ discover d source extensions referenced ↔
    ∃ f ∈ filesIn d source, hasExtension extensions f = true ∧
      Input.ofFile source f referenced = some i := by
  rw [discover, sortByPath, List.mem_mergeSort, List.mem_filterMap]
  simp only [List.mem_filter, and_assoc]

structure Discovered (source : Path) (referenced : Bool) (i : Input) (dirs : List (List Char))
    (stem ext : List Char) : Prop where
  named_dirs : ∀ m ∈ dirs, IsName m
  named : IsName (stem ++ '.' :: ext)
  stem_ne_nil : stem ≠ []
  undotted : '.' ∉ ext
  eq : i = ⟨source.join ⟨below dirs ++ (stem ++ '.' :: ext)⟩,
    (⟨below dirs ++ (stem ++ '.' :: ext)⟩ : Path).withExtension [], referenced⟩
  relative : i.path.relativeTo? source = some ⟨below dirs ++ (stem ++ '.' :: ext)⟩
  fileName : i.path.fileName? = some (stem ++ '.' :: ext)

theorem exists_discovered (hd : d.WellFormed) (hs : d.isDirectory source = true)
    (h : i ∈ discover d source extensions referenced) :
    ∃ dirs stem ext, Discovered source referenced i dirs stem ext := by
  obtain ⟨f, hf, hx, hi⟩ := mem_discover.1 h
  obtain ⟨place, hl, hp⟩ := Disk.isDirectory_iff.1 hs
  rw [filesIn, Disk.find_eq_ok.2 ⟨hl, hp⟩] at hf
  obtain ⟨names, hb, rfl⟩ := List.mem_map.1 hf
  obtain ⟨hn0, hn⟩ := hd.filesBelow hp hb
  have hr := relativeTo?_join (Disk.chars_ne_nil_of_locate hl) hn hn0
  have hc := components_join_ofNames source hn hn0
  obtain ⟨dirs, n, rfl, hdirs, hname, e⟩ := exists_ofNames_eq hn hn0
  have hf : (source.join (ofNames (dirs ++ [n]))).fileName? = some n := by
    rw [fileName?, hc, List.map_append, ← List.append_assoc, List.map_singleton, List.getLast?_concat]
  have hi : i = ⟨source.join (ofNames (dirs ++ [n])), (ofNames (dirs ++ [n])).withExtension [], referenced⟩ := by
    have h : (Input.ofFile source (source.join (ofNames (dirs ++ [n]))) referenced) = some i := hi
    rw [Input.ofFile, hr] at h
    exact (Option.some.inj h).symm
  obtain es | ⟨stem, ext, -, rfl, hstem, hext⟩ := splitName_cases n
  · have hx : hasExtension extensions (source.join (ofNames (dirs ++ [n]))) = true := hx
    rw [hasExtension, extension?, hf, Option.bind_some, es] at hx
    cases hx
  · refine ⟨dirs, stem, ext, hdirs, hname, hstem, hext, e ▸ hi, ?_, ?_⟩
    · rw [hi, ← e]
      exact hr
    · rw [hi]
      exact hf

namespace Discovered

variable {dirs : List (List Char)} {stem ext : List Char}

theorem assetPath_eq (h : Discovered source referenced i dirs stem ext) (resolved : Path)
    (text : String) : (SourceUnit.ofText i resolved text).assetPath =
      ((⟨below dirs ++ (stem ++ '.' :: ext)⟩ : Path).withExtension []).withExtension ext := by
  have hx : i.path.extension? = some ext := by
    rw [extension?, h.fileName, Option.bind_some, splitName_dot h.stem_ne_nil h.undotted]
  rw [SourceUnit.ofText, hx, h.eq]

theorem hasSingleExtension_iff (h : Discovered source referenced i dirs stem ext) :
    i.path.HasSingleExtension ↔ SingleExtension (stem ++ '.' :: ext) := by
  rw [HasSingleExtension, h.fileName]
  simp

theorem exists_names (h : Discovered source referenced i dirs stem ext)
    (hsingle : i.path.HasSingleExtension) : ∃ names, names ≠ [] ∧ (∀ n ∈ names, IsName n) ∧
      i = ⟨source.join (ofNames names), (ofNames names).withExtension [], referenced⟩ ∧
      i.path.relativeTo? source = some (ofNames names) ∧
      ∀ resolved text, (SourceUnit.ofText i resolved text).assetPath = ofNames names := by
  have e := ofNames_concat dirs (stem ++ '.' :: ext)
  refine ⟨dirs ++ [stem ++ '.' :: ext], by simp, ?_, e ▸ h.eq, e ▸ h.relative, fun resolved text => ?_⟩
  · intro n hn
    rcases List.mem_append.1 hn with hn | hn
    · exact h.named_dirs n hn
    · exact List.mem_singleton.1 hn ▸ h.named
  · rw [h.assetPath_eq, e]
    exact (withExtension_withExtension_nil h.named_dirs h.named h.stem_ne_nil h.undotted).2
      (h.hasSingleExtension_iff.1 hsingle)

end Discovered

/-- Among the sources below a directory, those with a single extension are the ones whose asset lies
where the source lies. A wrapper looks for such an asset where it is copied to, and no two sources
are copied to one asset. -/
theorem discover_assets (hd : d.WellFormed) (hs : d.isDirectory source = true) :
    (∀ i ∈ discover d source extensions referenced, ∃ p, i.path.relativeTo? source = some p ∧
      ∀ resolved text, let u := SourceUnit.ofText i resolved text
        (u.assetPath = p ↔ i.path.HasSingleExtension) ∧
        (i.path.HasSingleExtension →
          ∀ base, locateAsset base (.ofString u.assetText) = base.join p)) ∧
    ∀ i ∈ discover d source extensions referenced, ∀ j ∈ discover d source extensions referenced,
      i ≠ j → i.path.HasSingleExtension → j.path.HasSingleExtension →
      ∀ (assets ri rj : Path) (ti tj : String),
        (assets.join (SourceUnit.ofText i ri ti).assetPath).same
          (assets.join (SourceUnit.ofText j rj tj).assetPath) = false := by
  refine ⟨fun i hi => ?_, fun i hi j hj hij hsi hsj assets ri rj ti tj => ?_⟩
  · obtain ⟨dirs, stem, ext, h⟩ := exists_discovered hd hs hi
    refine ⟨_, h.relative, fun resolved text => ⟨?_, fun hsingle base => ?_⟩⟩
    · rw [h.assetPath_eq, h.hasSingleExtension_iff]
      exact withExtension_withExtension_nil h.named_dirs h.named h.stem_ne_nil h.undotted
    · obtain ⟨names, hne, hn, -, hr, ha⟩ := h.exists_names hsingle
      rw [locateAsset, SourceUnit.assetText, ha, slashText_ofNames hn hne,
        Option.some.inj (hr.symm.trans h.relative)]
  · obtain ⟨_, _, _, h⟩ := exists_discovered hd hs hi
    obtain ⟨_, _, _, h'⟩ := exists_discovered hd hs hj
    obtain ⟨m, hm0, hm, ei, -, hai⟩ := h.exists_names hsi
    obtain ⟨n, hn0, hn, ej, -, haj⟩ := h'.exists_names hsj
    rw [hai, haj, same, components_join_ofNames assets hm hm0, components_join_ofNames assets hn hn0]
    refine beq_false_of_ne fun e => hij ?_
    have hmn : m = n := (List.map_inj_right fun _ _ e => Component.name.inj e).1
      (List.append_cancel_left e)
    rw [ei, ej, hmn]

def nestedSources : Disk :=
  .ofFiles [] [(⟨"src/add.cl".toList⟩, ByteArray.empty), (⟨"src/blas/add.cl".toList⟩, ByteArray.empty)]

theorem discover_assets_nested :
    nestedSources.WellFormed ∧ nestedSources.isDirectory ⟨"src".toList⟩ = true ∧
      ∃ i ∈ discover nestedSources ⟨"src".toList⟩ ["cl"] true, i.path = ⟨"src/blas/add.cl".toList⟩ ∧
        ∀ resolved text, (SourceUnit.ofText i resolved text).assetPath = ⟨"blas/add.cl".toList⟩ := by
  have hd : nestedSources.WellFormed := .ofFiles (fun _ h => absurd h List.not_mem_nil) _
  have hs : nestedSources.isDirectory ⟨"src".toList⟩ = true := by decide +kernel
  have hi : (⟨⟨"src/blas/add.cl".toList⟩, ⟨"blas/add".toList⟩, true⟩ : Input) ∈
      discover nestedSources ⟨"src".toList⟩ ["cl"] true :=
    mem_discover.2 ⟨⟨"src/blas/add.cl".toList⟩, by decide +kernel, by decide, by decide⟩
  refine ⟨hd, hs, _, hi, rfl, fun resolved text => ?_⟩
  obtain ⟨p, hp, h⟩ := (discover_assets hd hs).1 _ hi
  have hr : Path.relativeTo? ⟨"src/blas/add.cl".toList⟩ ⟨"src".toList⟩ =
      some ⟨"blas/add.cl".toList⟩ := by decide
  rw [(h resolved text).1.2 ⟨"add.cl".toList, by decide, by decide⟩]
  exact Option.some.inj (hp.symm.trans hr)

def dottedSources : Disk :=
  .ofFiles [] [(⟨"src/conv.v1.cl".toList⟩, ByteArray.empty),
    (⟨"src/conv.v2.cl".toList⟩, ByteArray.empty)]

/-- A name with two extensions loses the one in front, so two sources that have artifacts of their
own are copied to one asset. -/
theorem discover_assets_dotted :
    ∃ i ∈ discover dottedSources ⟨"src".toList⟩ ["cl"] true,
      ∃ j ∈ discover dottedSources ⟨"src".toList⟩ ["cl"] true,
        i.path.relativeTo? ⟨"src".toList⟩ = some ⟨"conv.v1.cl".toList⟩ ∧
        j.path.relativeTo? ⟨"src".toList⟩ = some ⟨"conv.v2.cl".toList⟩ ∧
        (i.artifact ⟨"out".toList⟩).same (j.artifact ⟨"out".toList⟩) = false ∧
        ∀ resolved text,
          (SourceUnit.ofText i resolved text).assetPath = ⟨"conv.cl".toList⟩ ∧
          (SourceUnit.ofText j resolved text).assetPath = ⟨"conv.cl".toList⟩ := by
  have hi : (⟨⟨"src/conv.v1.cl".toList⟩, ⟨"conv.v1".toList⟩, true⟩ : Input) ∈
      discover dottedSources ⟨"src".toList⟩ ["cl"] true :=
    mem_discover.2 ⟨⟨"src/conv.v1.cl".toList⟩, by decide +kernel, by decide, by decide⟩
  have hj : (⟨⟨"src/conv.v2.cl".toList⟩, ⟨"conv.v2".toList⟩, true⟩ : Input) ∈
      discover dottedSources ⟨"src".toList⟩ ["cl"] true :=
    mem_discover.2 ⟨⟨"src/conv.v2.cl".toList⟩, by decide +kernel, by decide, by decide⟩
  refine ⟨_, hi, _, hj, by decide, by decide, by decide, fun _ _ => ⟨?_, ?_⟩⟩
  · rfl
  · rfl

end Discovery

end KernelWrap
