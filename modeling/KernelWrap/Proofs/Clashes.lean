import KernelWrap.Build
import KernelWrap.Proofs.Assets
import KernelWrap.Proofs.Links
import KernelWrap.Proofs.PathOrder

/-! Clashes below a source directory. A source is told by its path below the directory without its
last extension, and its artifact is told by its link. The link is that path, except that `.` becomes
`..`, which is no name and loses no extension. So artifacts are shared by sources that differ in
their extensions only, and by a source `..e` and a source `...f` in one directory, but by no others.
-/

namespace KernelWrap

namespace Path

/-- The path without the last dot of its file name and what follows it. -/
def withoutExtension (p : Path) : Path :=
  match p.extension? with
  | none => p
  | some e => ⟨p.chars.take (p.chars.length - (e.length + 1))⟩

/-- Paths of one directory that end in `.` and in `..` behind it. -/
def Twins (p q : Path) : Prop :=
  (splitSlashes p.chars).getLast? = some ['.'] ∧ q.chars = p.chars ++ ['.']

instance (p q : Path) : Decidable (Twins p q) := inferInstanceAs (Decidable (_ ∧ _))

def linkName (stem : List Char) : List Char := if stem = ['.'] then ['.', '.'] else stem

theorem linkName_inj {s t : List Char} : linkName s = linkName t ↔
    s = t ∨ (s = ['.'] ∧ t = ['.', '.']) ∨ (t = ['.'] ∧ s = ['.', '.']) := by
  by_cases hs : s = ['.'] <;> by_cases ht : t = ['.'] <;> simp [linkName, hs, ht, eq_comm]

section Below

variable {dirs dirs' : List (List Char)} {n n' : List Char}

theorem splitSlashes_below (hd : ∀ m ∈ dirs, IsName m) (hn : '/' ∉ n) :
    splitSlashes (below dirs ++ n) = dirs ++ [n] := by
  induction dirs with
  | nil => exact Text.pieces_of_notMem hn
  | cons a dirs ih =>
    obtain ⟨ha, hd⟩ := List.forall_mem_cons.1 hd
    rw [below_cons_append, splitSlashes, Text.pieces_append, Text.pieces_of_notMem ha.unsplit]
    exact congrArg (a :: ·) (ih hd)

theorem below_append_inj (hd : ∀ m ∈ dirs, IsName m) (hd' : ∀ m ∈ dirs', IsName m)
    (hn : '/' ∉ n) (hn' : '/' ∉ n') :
    below dirs ++ n = below dirs' ++ n' ↔ dirs = dirs' ∧ n = n' := by
  refine ⟨fun h => ?_, fun ⟨h, h'⟩ => by rw [h, h']⟩
  have he := congrArg splitSlashes h
  rw [splitSlashes_below hd hn, splitSlashes_below hd' hn'] at he
  exact (List.append_inj' he rfl).imp_right List.singleton_inj.1

theorem withoutExtension_below {stem ext : List Char} (hd : ∀ m ∈ dirs, IsName m)
    (hn : IsName (stem ++ '.' :: ext)) (hs : stem ≠ []) (he : '.' ∉ ext) :
    (⟨below dirs ++ (stem ++ '.' :: ext)⟩ : Path).withoutExtension = ⟨below dirs ++ stem⟩ := by
  have hcut : below dirs ++ (stem ++ '.' :: ext) = (below dirs ++ stem) ++ '.' :: ext := by simp
  rw [withoutExtension, extension?, fileName?_below hd hn, Option.bind_some, splitName_dot hs he]
  dsimp only
  rw [hcut, List.length_append, List.length_cons, Nat.add_sub_cancel, List.take_left]

end Below

end Path

open KernelWrap.Path

def Input.bare (source : Path) (i : Input) : Path :=
  ((i.path.relativeTo? source).getD i.path).withoutExtension

namespace Discovered

variable {source out : Path} {referenced : Bool} {i j : Input} {dirs dirs' : List (List Char)}
  {stem stem' ext ext' : List Char}

theorem isPart_linkName (h : Discovered source referenced i dirs stem ext) :
    IsPart (linkName stem) := by
  by_cases hs : stem = ['.']
  · rw [linkName, if_pos hs]
    exact ⟨by decide, by decide, by decide⟩
  · rw [linkName, if_neg hs]
    exact ⟨h.stem_ne_nil, fun hm => h.named.unsplit (List.mem_append_left _ hm), hs⟩

theorem slash_notMem (h : Discovered source referenced i dirs stem ext) : '/' ∉ stem :=
  fun hm => h.named.unsplit (List.mem_append_left _ hm)

theorem bare_eq (h : Discovered source referenced i dirs stem ext) :
    i.bare source = ⟨below dirs ++ stem⟩ := by
  rw [Input.bare, h.relative, Option.getD_some,
    withoutExtension_below h.named_dirs h.named h.stem_ne_nil h.undotted]

theorem link_eq (h : Discovered source referenced i dirs stem ext) :
    i.link = ⟨below dirs ++ linkName stem⟩ := by
  rw [h.eq]
  dsimp only
  rw [withExtension_of_some h.named_dirs h.named h.stem_ne_nil h.undotted, if_pos rfl, linkName]
  by_cases hs : stem = ['.']
  -- Without the extension itself the name is `..`, which has no stem to be cut back to.
  · rw [if_pos hs, if_pos hs, hs]
    rfl
  · rw [if_neg hs, if_neg hs, List.append_nil]

theorem isName_linkName (h : Discovered source referenced i dirs stem ext) :
    ∀ n ∈ dirs ++ [linkName stem ++ ".rs".toList], IsName n := by
  have hlong : ∀ n : List Char, n.length ≤ 2 → linkName stem ++ ".rs".toList ≠ n := fun n hl e => by
    have := congrArg List.length e
    rw [List.length_append, show ".rs".toList.length = 3 from rfl] at this
    omega
  refine List.forall_mem_append.2 ⟨h.named_dirs, List.forall_mem_singleton.2 ?_⟩
  refine ⟨⟨hlong _ (by decide), fun hm => ?_, hlong _ (by decide)⟩, hlong _ (by decide)⟩
  exact (List.mem_append.1 hm).elim h.isPart_linkName.unsplit (by decide)

theorem artifact_eq (h : Discovered source referenced i dirs stem ext) (out : Path) :
    i.artifact out = out.join (ofNames (dirs ++ [linkName stem ++ ".rs".toList])) := by
  have hlink := isAbsolute_below h.named_dirs h.isPart_linkName
  have hfile := isAbsolute_ofNames h.isName_linkName (by simp)
  rw [ofNames_concat] at hfile ⊢
  rw [Input.artifact, h.link_eq, join, join, hlink, hfile]
  cases out.chars.getLast? with
  | none => simp [extended]
  | some c => simp [extended]

theorem same_artifact_iff (h : Discovered source referenced i dirs stem ext)
    (h' : Discovered source referenced j dirs' stem' ext') (out : Path) :
    (i.artifact out).same (j.artifact out) = true ↔
      dirs = dirs' ∧ linkName stem = linkName stem' := by
  rw [same, beq_iff_eq, h.artifact_eq, h'.artifact_eq,
    components_join_ofNames out h.isName_linkName (by simp),
    components_join_ofNames out h'.isName_linkName (by simp), List.append_cancel_left_eq,
    List.map_inj_right fun _ _ e => Component.name.inj e]
  constructor
  · intro e
    obtain ⟨hdirs, hname⟩ := List.append_inj' e rfl
    exact ⟨hdirs, List.append_cancel_right (List.singleton_inj.1 hname)⟩
  · rintro ⟨rfl, hname⟩
    rw [hname]

theorem bare_eq_iff (h : Discovered source referenced i dirs stem ext)
    (h' : Discovered source referenced j dirs' stem' ext') :
    i.bare source = j.bare source ↔ dirs = dirs' ∧ stem = stem' := by
  rw [h.bare_eq, h'.bare_eq, Path.mk.injEq,
    below_append_inj h.named_dirs h'.named_dirs h.slash_notMem h'.slash_notMem]

theorem twins_iff (h : Discovered source referenced i dirs stem ext)
    (h' : Discovered source referenced j dirs' stem' ext') :
    Twins (i.bare source) (j.bare source) ↔ dirs = dirs' ∧ stem = ['.'] ∧ stem' = ['.', '.'] := by
  rw [h.bare_eq, h'.bare_eq, Twins, splitSlashes_below h.named_dirs h.slash_notMem,
    List.getLast?_concat, Option.some_inj, List.append_assoc]
  constructor
  · rintro ⟨rfl, e⟩
    obtain ⟨hdirs, hstem⟩ :=
      (below_append_inj h'.named_dirs h.named_dirs h'.slash_notMem (by decide)).1 e
    exact ⟨hdirs.symm, rfl, hstem⟩
  · rintro ⟨rfl, rfl, rfl⟩
    exact ⟨rfl, rfl⟩

theorem extension?_eq (h : Discovered source referenced i dirs stem ext) :
    i.path.extension? = some ext := by
  rw [extension?, h.fileName, Option.bind_some, splitName_dot h.stem_ne_nil h.undotted]

end Discovered

namespace Disk

variable {d d' : Disk}

def Distinct (d : Disk) : Prop := (d.entries.map Prod.fst).Nodup

instance : Decidable d.Distinct := inferInstanceAs (Decidable (List.Nodup _))

theorem Distinct.put (h : d.Distinct) (q : Place) (e : Entry) : (d.put q e).Distinct := by
  rw [Distinct, Disk.put, List.map_cons, List.nodup_cons]
  refine ⟨fun hm => ?_, h.sublist (List.filter_sublist.map _)⟩
  obtain ⟨x, hx, rfl⟩ := List.mem_map.1 hm
  exact bne_iff_ne.1 (List.mem_filter.1 hx).2 rfl

theorem Distinct.of_puts {W : Place → Prop} (h : d.Distinct) (hp : Puts W d d') : d'.Distinct := by
  induction hp with
  | refl => exact h
  | directory _ _ _ ih => exact ih.put _ _
  | file c _ _ _ _ ih => exact ih.put _ _

theorem Distinct.ofFiles (here : Place) (files : List (Path × ByteArray)) :
    (Disk.ofFiles here files).Distinct :=
  have h0 : (⟨here, []⟩ : Disk).Distinct := List.nodup_nil
  h0.of_puts (ofFiles_puts here files)

theorem map_filesBelow_sublist (d : Disk) (q : Place) :
    ((d.filesBelow q).map (q ++ ·)).Sublist (d.entries.map Prod.fst) := by
  rw [filesBelow]
  induction d.entries with
  | nil => exact .slnil
  | cons x entries ih =>
    rw [List.filterMap_cons, List.map_cons]
    split
    · exact ih.cons _
    · next names hnames =>
      split at hnames
      · split at hnames
        · next hq =>
          obtain ⟨below, hbelow⟩ := List.isPrefixOf_iff_prefix.1 hq
          rw [← hbelow, List.drop_left] at hnames
          rw [← hbelow, Option.some.inj hnames]
          exact ih.cons_cons _
        · cases hnames
      · cases hnames

theorem nodup_filesBelow (h : d.Distinct) (q : Place) : (d.filesBelow q).Nodup :=
  .of_map _ (h.sublist (d.map_filesBelow_sublist q))

end Disk

section Discovery

variable {d : Disk} {source : Path} {extensions : List String} {referenced : Bool} {i j : Input}

theorem hasExtension_of_mem (h : i ∈ discover d source extensions referenced) :
    hasExtension extensions i.path = true := by
  obtain ⟨f, -, hx, hi⟩ := mem_discover.1 h
  obtain ⟨p, -, rfl⟩ := Option.map_eq_some_iff.1 hi
  exact hx

theorem pairwise_discover (hd : d.WellFormed) (hn : d.Distinct) (hs : d.isDirectory source = true)
    (extensions : List String) (referenced : Bool) :
    (discover d source extensions referenced).Pairwise fun i j => ¬i.path.same j.path = true := by
  have hfiles : (filesIn d source).Pairwise fun f f' => ¬f.same f' = true := by
    obtain ⟨place, hl, hp⟩ := Disk.isDirectory_iff.1 hs
    rw [filesIn, Disk.find_eq_ok.2 ⟨hl, hp⟩]
    refine List.pairwise_map.2 ((Disk.nodup_filesBelow hn place).imp_of_mem ?_)
    intro m n hm hm' hne he
    obtain ⟨hm0, hm⟩ := hd.filesBelow hp hm
    obtain ⟨hn0, hn⟩ := hd.filesBelow hp hm'
    have hc := beq_iff_eq.1 he
    change (source.join (ofNames m)).components = (source.join (ofNames n)).components at hc
    rw [components_join_ofNames source hm hm0, components_join_ofNames source hn hn0] at hc
    have hmn := List.append_cancel_left hc
    exact hne ((List.map_inj_right fun _ _ e => Component.name.inj e).1 hmn)
  have hsymm : ∀ {i j : Input}, ¬i.path.same j.path = true → ¬j.path.same i.path = true :=
    fun hne he => hne (same_iff.2 (same_iff.1 he).symm)
  refine (sortByPath_perm Input.path _).symm.pairwise ?_ hsymm
  refine List.Pairwise.filterMap _ (fun f f' hff i hi j hj => ?_) (hfiles.filter _)
  obtain ⟨p, -, rfl⟩ := Option.map_eq_some_iff.1 hi
  obtain ⟨q, -, rfl⟩ := Option.map_eq_some_iff.1 hj
  exact hff

theorem path_eq_of_bare_eq (hd : d.WellFormed) (hs : d.isDirectory source = true) {e : String}
    (hi : i ∈ discover d source [e] referenced) (hj : j ∈ discover d source [e] referenced)
    (h : i.bare source = j.bare source) : i.path = j.path := by
  obtain ⟨dirs, stem, ext, hdi⟩ := exists_discovered hd hs hi
  obtain ⟨dirs', stem', ext', hdj⟩ := exists_discovered hd hs hj
  have hext : ∀ {i dirs stem ext}, Discovered source referenced i dirs stem ext →
      i ∈ discover d source [e] referenced → ext = e.toList := by
    intro i dirs stem ext hdi hi
    have hx := hasExtension_of_mem hi
    rw [hasExtension, hdi.extension?_eq] at hx
    simp only [List.contains_cons, List.contains_nil, Bool.or_false, beq_iff_eq] at hx
    rw [← hx, String.toList_ofList]
  obtain ⟨rfl, rfl⟩ := (hdi.bare_eq_iff hdj).1 h
  rw [hdi.eq, hdj.eq, hext hdi hi, hext hdj hj]

end Discovery

namespace Generator

variable {g : Generator} {inputs : List Input} {d : Disk} {source : Path}

theorem exists_of_clash? {claimed : List (Path × Path)} {e : GenerateError}
    (h : g.clash? claimed inputs = some e) :
    (∃ c ∈ claimed, ∃ i ∈ inputs, c.1.same (i.artifact g.out) = true ∧
        e = .clash c.2 i.path (i.artifact g.out)) ∨
      ∃ i j, [i, j].Sublist inputs ∧ (i.artifact g.out).same (j.artifact g.out) = true ∧
        e = .clash i.path j.path (j.artifact g.out) := by
  induction inputs generalizing claimed with
  | nil => cases h
  | cons i inputs ih =>
    rw [clash?] at h
    cases hf : claimed.find? fun c => c.1.same (i.artifact g.out) with
    | some c =>
      rw [hf] at h
      have hsame := List.find?_some hf
      exact .inl ⟨c, List.mem_of_find?_eq_some hf, i, List.mem_cons_self, hsame,
        (Option.some.inj h).symm⟩
    | none =>
      rw [hf] at h
      -- What was claimed when the rest clashed is the artifact of the first input, or was before.
      obtain ⟨c, hc, j, hj, hsame, he⟩ | ⟨j, k, hjk, hsame, he⟩ := ih h
      · rcases List.mem_cons.1 hc with rfl | hc
        · exact .inr ⟨i, j, (List.singleton_sublist.2 hj).cons_cons i, hsame, he⟩
        · exact .inl ⟨c, hc, j, List.mem_cons_of_mem i hj, hsame, he⟩
      · exact .inr ⟨j, k, hjk.cons i, hsame, he⟩

theorem same_artifact_discover (hd : d.WellFormed) (hs : d.isDirectory source = true) {i j : Input}
    (hi : i ∈ g.discover source d) (hj : j ∈ g.discover source d) :
    ((i.artifact g.out).same (j.artifact g.out) = true ↔ i.bare source = j.bare source ∨
      Twins (i.bare source) (j.bare source) ∨ Twins (j.bare source) (i.bare source)) ∧
    ((i.artifact g.out).same (j.artifact g.out) = true → i.artifact g.out = j.artifact g.out) := by
  obtain ⟨dirs, stem, ext, hdi⟩ := exists_discovered hd hs hi
  obtain ⟨dirs', stem', ext', hdj⟩ := exists_discovered hd hs hj
  rw [hdi.same_artifact_iff hdj, hdi.bare_eq_iff hdj, hdi.twins_iff hdj, hdj.twins_iff hdi,
    eq_comm (a := dirs'), ← and_or_left, ← and_or_left, linkName_inj]
  refine ⟨Iff.rfl, fun ⟨hdirs, hlink⟩ => ?_⟩
  rw [hdi.artifact_eq, hdj.artifact_eq, hdirs, linkName_inj.2 hlink]

/-- The sources below a directory are refused just when two of them are the same without their last
extensions, or are a `.` and a `..` of one directory without them. So sources of one extension are
never refused unless they are such a pair, and a refusal names two sources that share the artifact
it tells. -/
theorem clash?_discover (hd : d.WellFormed) (hn : d.Distinct) (hs : d.isDirectory source = true) :
    (g.clash? [] (g.discover source d) = none ↔ (g.discover source d).Pairwise fun i j =>
      i.bare source ≠ j.bare source ∧
        ¬(Twins (i.bare source) (j.bare source) ∨ Twins (j.bare source) (i.bare source))) ∧
    (∀ e, g.settings.extensions = [e] →
      (∀ i ∈ g.discover source d, ∀ j ∈ g.discover source d,
        ¬Twins (i.bare source) (j.bare source)) →
      g.clash? [] (g.discover source d) = none) ∧
    ∀ e, g.clash? [] (g.discover source d) = some e →
      ∃ i ∈ g.discover source d, ∃ j ∈ g.discover source d, ¬i.path.same j.path = true ∧
        i.artifact g.out = j.artifact g.out ∧ e = .clash i.path j.path (j.artifact g.out) := by
  have hpaths := pairwise_discover hd hn hs g.settings.extensions g.settings.referenced
  have hiff : g.clash? [] (g.discover source d) = none ↔ (g.discover source d).Pairwise fun i j =>
      i.bare source ≠ j.bare source ∧
        ¬(Twins (i.bare source) (j.bare source) ∨ Twins (j.bare source) (i.bare source)) := by
    rw [clash?_eq_none]
    simp only [List.not_mem_nil, false_imp_iff, implies_true, true_and]
    refine List.Pairwise.iff_of_mem fun {i j} hi hj => ?_
    rw [(same_artifact_discover hd hs hi hj).1, not_or]
  refine ⟨hiff, fun e he htwins => ?_, fun e he => ?_⟩
  · refine hiff.2 (hpaths.imp_of_mem fun {i j} hi hj hne => ?_)
    refine ⟨fun hb => hne ?_, not_or.2 ⟨htwins i hi j hj, htwins j hj i hi⟩⟩
    change i ∈ KernelWrap.discover d source g.settings.extensions _ at hi
    change j ∈ KernelWrap.discover d source g.settings.extensions _ at hj
    rw [he] at hi hj
    rw [path_eq_of_bare_eq hd hs hi hj hb]
    exact same_iff.2 rfl
  · obtain ⟨c, hc, -⟩ | ⟨i, j, hij, hsame, he⟩ := exists_of_clash? he
    · cases hc
    · have hi := hij.subset List.mem_cons_self
      have hj := hij.subset (List.mem_cons_of_mem i List.mem_cons_self)
      exact ⟨i, hi, j, hj, List.pairwise_pair.1 (hpaths.sublist hij),
        (same_artifact_discover hd hs hi hj).2 hsame, he⟩

def clGenerator : Generator := ⟨{ extensions := ["cl"] }, ⟨"out".toList⟩, false, none⟩

def dottedNames : Disk :=
  .ofFiles [] [(⟨"src/a.cl./...cl".toList⟩, ByteArray.empty),
    (⟨"src/a.cl".toList⟩, ByteArray.empty), (⟨"src/a.b.cl".toList⟩, ByteArray.empty),
    (⟨"src/a..cl".toList⟩, ByteArray.empty), (⟨"src/.cl".toList⟩, ByteArray.empty),
    (⟨"src/..cl".toList⟩, ByteArray.empty)]

theorem clash?_discover_dotted :
    dottedNames.WellFormed ∧ dottedNames.Distinct ∧ dottedNames.isDirectory ⟨"src".toList⟩ = true ∧
      (clGenerator.discover ⟨"src".toList⟩ dottedNames).length = 5 ∧
      clGenerator.clash? [] (clGenerator.discover ⟨"src".toList⟩ dottedNames) = none := by
  have hd : dottedNames.WellFormed := .ofFiles (fun _ h => absurd h List.not_mem_nil) _
  have hn : dottedNames.Distinct := .ofFiles _ _
  have hs : dottedNames.isDirectory ⟨"src".toList⟩ = true := by decide +kernel
  have hsources : clGenerator.discover ⟨"src".toList⟩ dottedNames = _ :=
    sortByPath_of_pairwise (by decide +kernel)
  refine ⟨hd, hn, hs, by rw [hsources]; decide +kernel, ?_⟩
  refine (clash?_discover hd hn hs).1.2 ?_
  rw [hsources]
  decide +kernel

def twinSources : Disk :=
  .ofFiles [] [(⟨"src/..cl".toList⟩, ByteArray.empty), (⟨"src/...cl".toList⟩, ByteArray.empty)]

/-- Sources of one extension, which differ without it, are refused. -/
theorem twins_clash :
    clGenerator.clash? [] (clGenerator.discover ⟨"src".toList⟩ twinSources) =
        some (.clash ⟨"src/...cl".toList⟩ ⟨"src/..cl".toList⟩ ⟨"out/...rs".toList⟩) ∧
      (clGenerator.discover ⟨"src".toList⟩ twinSources).map (Input.bare ⟨"src".toList⟩) =
        [⟨"..".toList⟩, ⟨".".toList⟩] := by
  have hsources : clGenerator.discover ⟨"src".toList⟩ twinSources = _ :=
    sortByPath_of_pairwise (by decide +kernel)
  rw [hsources]
  decide +kernel

end Generator

end KernelWrap
