import KernelWrap.Proofs.Courses
import KernelWrap.Proofs.Links
import KernelWrap.Proofs.PathOrder
import KernelWrap.Proofs.Sessions
import KernelWrap.Proofs.Turns

/-! Builds in whatever order their generations take turns. A build in which all generations succeed
ends with the directories that it began with and those that its artifacts and assets need. So an
artifact that one order of turns finds up to date is found up to date in every other one: it lay there
when the build began, its digest did, and nothing in between takes them away. -/

namespace KernelWrap

namespace Generator

variable {g : Generator} {inputs : List Input} {i : Input} {d e e' : Disk} {u v : SourceUnit}
  {a b : Analysis} {x y : Artifact}

structure Ended (g : Generator) (inputs : List Input) (d e : Disk) : Prop where
  later : g.Later inputs d e
  finished : ∀ i ∈ inputs, ∃ u a x, g.Finished inputs d e i u a x

theorem Finished.opens (h : g.Finished inputs d e i u a x) (hh : e.here = d.here) {q : Place}
    (hq : g.MakesWay d.here i q) : e.lookup q = some .directory := by
  rcases hq with hq | ⟨resolved, text, p, hp, hq⟩
  · obtain ⟨r, hr⟩ := Disk.exists_locate_of_exist (isFresh_iff.1 h.fresh).1
    exact hq e hh r hr
  · -- Where a unit is copied to is said by its input.
    obtain ⟨resolved', text', hu⟩ := h.ready.exists_ofText
    have hp : g.asset? u = some p := hu ▸ hp
    obtain ⟨r, hr⟩ := h.ready.asset p hp
    exact hq e hh r hr

theorem Ended.directory_iff (h : g.Ended inputs d e) {q : Place} : e.lookup q = some .directory ↔
    d.lookup q = some .directory ∨ ∃ i ∈ inputs, g.MakesWay d.here i q := by
  refine ⟨h.later.opens q, ?_⟩
  rintro (hq | ⟨i, hi, hq⟩)
  · exact h.later.puts.lookup_directory hq
  · obtain ⟨u, a, x, hf⟩ := h.finished i hi
    exact hf.opens h.later.here hq

theorem Untouched.readBytes_eq (h : g.Untouched i d e) (h' : g.Untouched i d e')
    (hh : e.here = d.here) (hh' : e'.here = d.here) (hexist : e.exist (i.artifact g.out) = true)
    (hexist' : e'.exist (i.artifact g.out) = true) :
    e.readBytes (i.artifact g.out) = e'.readBytes (i.artifact g.out) := by
  obtain ⟨q, z, hq, hz⟩ := Disk.exist_iff.1 hexist
  obtain ⟨q', z', hq', hz'⟩ := Disk.exist_iff.1 hexist'
  obtain rfl : q = g.place d.here i := eq_place_of_locate hq hh
  obtain rfl : q' = g.place d.here i := eq_place_of_locate hq' hh'
  have hkept : ∀ c, e.lookup (g.place d.here i) = some (.file c) ↔
      e'.lookup (g.place d.here i) = some (.file c) := fun c =>
    (h _ (.inl rfl) c).trans (h' _ (.inl rfl) c).symm
  have hsame : z = z' := by
    cases z with
    | file c =>
      rw [(hkept c).1 hz] at hz'
      exact Option.some.inj hz'
    | directory =>
      cases z' with
      | directory => rfl
      | file c =>
        rw [(hkept c).2 hz'] at hz
        cases hz
  rw [Disk.readBytes, Disk.readBytes, Disk.find_eq_ok.2 ⟨hq, hz⟩, Disk.find_eq_ok.2 ⟨hq', hz'⟩, hsame]

theorem Finished.cached_of_cached (hx : g.Finished inputs d e i u a x)
    (hy : g.Finished inputs d e' i u b y) (he' : g.Ended inputs d e')
    (hfound : ∀ content, d.lookup (g.place d.here i) = some (.file content) →
      d.exist (i.artifact g.out) = true) (hc : x.cached = true) : y.cached = true := by
  by_contra hn
  replace hn := Bool.eq_false_of_not_eq_true hn
  obtain ⟨e₁, hl₁, hu₁, hf₁⟩ := hx.judged
  obtain ⟨e₂, hl₂, hu₂, hf₂⟩ := hy.judged
  rw [hc, Bool.and_eq_true_iff] at hf₁
  rw [hn, hf₁.1, Bool.true_and] at hf₂
  obtain ⟨hexist, hread⟩ := isFresh_iff.1 hf₁.2
  obtain ⟨q, z, hq, hz⟩ := Disk.exist_iff.1 hexist
  obtain rfl : q = g.place d.here i := eq_place_of_locate hq hl₁.here
  obtain ⟨r, hr, hdigest⟩ := Disk.readText_eq_ok.1 hread
  obtain rfl : r = (g.place d.here i).digest := eq_digest_of_locate hr hl₁.here
  cases z with
  | directory =>
    -- A directory there is in the way of the file that the other build wrote.
    have hdir := he'.directory_iff.2 (hl₁.opens _ hz)
    obtain ⟨text, -, ht⟩ := hy.made hn
    have hfile := lookup_place ht
    rw [he'.later.here, hdir] at hfile
    cases hfile
  | file c =>
    have hexist₂ := hl₂.puts.exist (hfound c ((hu₁ _ (.inl rfl) c).1 hz))
    obtain ⟨q₂, hq₂⟩ := Disk.exists_locate_of_exist hexist₂
    have hr₂ := Disk.locate_extended (by decide) (hl₂.here.trans hl₁.here.symm) hr hq₂
    refine Bool.false_ne_true (hf₂.symm.trans (isFresh_iff.2
      ⟨hexist₂, Disk.readText_eq_ok.2 ⟨_, hr₂, ?_⟩⟩))
    exact (hu₂ _ (.inr rfl) _).2 ((hu₁ _ (.inr rfl) _).1 hdigest)

theorem Finished.agree (hx : g.Finished inputs d e i u a x) (hy : g.Finished inputs d e' i v b y)
    (he : g.Ended inputs d e) (he' : g.Ended inputs d e')
    (hsource : ¬∃ j ∈ inputs, g.WritesTo d.here j (i.path.target d.here))
    (hfound : ∀ content, d.lookup (g.place d.here i) = some (.file content) →
      d.exist (i.artifact g.out) = true) :
    x = y ∧ e.readBytes (i.artifact g.out) = e'.readBytes (i.artifact g.out) ∧
      e.readBytes (hashPath (i.artifact g.out)) = e'.readBytes (hashPath (i.artifact g.out)) := by
  obtain ⟨rfl, rfl⟩ := hx.ready.unique hy.ready.toLoaded he.later.puts he'.later.puts hsource
  have hcached : x.cached = y.cached := Bool.eq_iff_iff.2
    ⟨hx.cached_of_cached hy he' hfound, hy.cached_of_cached hx he hfound⟩
  obtain ⟨hexist, hread⟩ := isFresh_iff.1 hx.fresh
  obtain ⟨hexist', hread'⟩ := isFresh_iff.1 hy.fresh
  refine ⟨by rw [hx.eq, hy.eq, hcached], ?_, ?_⟩
  · cases hc : x.cached with
    | false =>
      obtain ⟨text, hr, ht⟩ := hx.made hc
      obtain ⟨text', hr', ht'⟩ := hy.made (hcached ▸ hc)
      obtain rfl := Except.ok.inj (hr.symm.trans hr')
      rw [Disk.readBytes_of_readText ht, Disk.readBytes_of_readText ht']
    | true =>
      exact (hx.kept hc).readBytes_eq (hy.kept (hcached ▸ hc)) he.later.here he'.later.here hexist
        hexist'
  · rw [Disk.readBytes_of_readText hread, Disk.readBytes_of_readText hread']

end Generator

theorem Build.Traced.ended {g : Generator} {b : Build} {inputs : List Input} {d : Disk}
    (hb : b.Traced g inputs d) (hd : b.IsDone) : g.Ended inputs d b.disk where
  later := hb.later
  finished := fun i hi => by
    obtain ⟨j, hj, rfl, x, e⟩ := hd.exists_job hb.isFor hi
    obtain ⟨u, a, hf⟩ := hb.finished hj e
    exact ⟨u, a, x, hf⟩

namespace Generator

variable {g : Generator} {inputs : List Input} {d : Disk} {s t : List Nat}

/-- What inputs have to be like: their sources have different paths and do not lie where the build
writes, their links are spelled by names, and their artifacts pass the check. -/
structure Admitted (g : Generator) (here : Place) (inputs : List Input) : Prop where
  paths : inputs.Pairwise fun i j => ¬i.path.same j.path = true
  links : ∀ i ∈ inputs, i.Linked
  unclashed : g.clash? [] inputs = none
  sources : ∀ i ∈ inputs, ∀ j ∈ inputs, ¬g.WritesTo here i (j.path.target here)

instance {here : Place} : Decidable (g.Admitted here inputs) :=
  decidable_of_iff (inputs.Pairwise (fun i j => ¬i.path.same j.path = true) ∧
      (∀ i ∈ inputs, i.Linked) ∧ g.clash? [] inputs = none ∧
      ∀ i ∈ inputs, ∀ j ∈ inputs, ¬g.WritesTo here i (j.path.target here))
    ⟨fun ⟨hp, hl, hc, hs⟩ => ⟨hp, hl, hc, hs⟩, fun h => ⟨h.paths, h.links, h.unclashed, h.sources⟩⟩

section Pair

def nestedInput : Input := ⟨⟨"src/a.cl".toList⟩, ⟨"x/a".toList⟩, true⟩

def plainInput : Input := ⟨⟨"src/b.rs".toList⟩, ⟨"a".toList⟩, true⟩

def pairInputs : List Input := [nestedInput, plainInput]

def pairDisk : Disk :=
  ⟨[], [(["src".toList], .directory), (["src".toList, "a.cl".toList], .file "".toByteArray),
    (["src".toList, "b.rs".toList], .file "".toByteArray)]⟩

def pairGenerator (assets out : String) : Generator :=
  ⟨{ assets := some (.ofString assets) }, .ofString out, false, none⟩

def upwards (n : Nat) : List Nat := List.replicate 7 0 ++ List.replicate n 1

def downwards : List Nat := List.replicate 7 1 ++ List.replicate 7 0

theorem assets_pair : ∀ out ∈ ["out", "new/../out"], ∀ i ∈ pairInputs, ∀ j ∈ pairInputs,
    ∀ resolved text q, (pairGenerator "assets" out).AssetAt [] (.ofText i resolved text) q →
      q ≠ (pairGenerator "assets" out).place [] j ∧
        q ≠ ((pairGenerator "assets" out).place [] j).digest := by
  rintro out hout i hi j hj resolved text q ⟨p, hp, rfl⟩
  have h : ∀ out ∈ ["out", "new/../out"], ∀ i ∈ pairInputs, ∀ j ∈ pairInputs,
      ∀ p ∈ ((pairGenerator "assets" out).asset? (.ofText i ⟨[]⟩ "")).toList,
        p.target [] ≠ (pairGenerator "assets" out).place [] j ∧
          p.target [] ≠ ((pairGenerator "assets" out).place [] j).digest := by
    decide
  exact h out hout i hi j hj p (Option.mem_toList.2 hp)

def firstByte? (d : Disk) (p : Path) : Option UInt8 :=
  (d.readBytes p).toOption.bind fun content => content.data.toList.head?

/-- The asset of the second source has the path of the artifact of the first. -/
def overlap : Generator := pairGenerator "out/x" "out"

def detour : Generator := pairGenerator "assets" "new/../out"

def pairUnit : SourceUnit := .ofText plainInput ⟨"/src/b.rs".toList⟩ ""

def builtDisk : Disk :=
  ⟨[], (["out".toList], .directory) :: (["out".toList, "a.rs".toList], .file "".toByteArray) ::
    (["out".toList, "a.rs.hash".toList], .file (detour.digest pairUnit).toByteArray) ::
      pairDisk.entries⟩

def detourBuild (schedule : List Nat) : Build := (Build.start builtDisk pairInputs).run detour schedule

def pairArtifacts (cached : Bool) : List Artifact :=
  [⟨nestedInput, .ofString "new/../out/x/a.rs", [], false⟩,
    ⟨plainInput, .ofString "new/../out/a.rs", [], cached⟩]

theorem admitted_detour : detour.Admitted [] pairInputs := by decide

theorem detour_before :
    (detourBuild (upwards 4)).jobs =
      [⟨nestedInput, .done ⟨nestedInput, .ofString "new/../out/x/a.rs", [], false⟩⟩,
        ⟨plainInput, .placed pairUnit (Analysis.ofText [])⟩] ∧
    (detourBuild (upwards 4)).disk.exist (.ofString "new/../out/a.rs") = true ∧
    leadsTo (detourBuild (upwards 4)).disk (.ofString "new/../out/a.rs.hash")
      ["out".toList, "a.rs.hash".toList] = true := by
  decide +kernel

theorem isFresh_detour : isFresh (detourBuild (upwards 4)).disk (plainInput.artifact detour.out)
    (detour.digest pairUnit) = true := by
  obtain ⟨hjobs, hexist, hdigest⟩ := detour_before
  have hapart : detour.Apart [] pairInputs :=
    ⟨nodup_places admitted_detour.links admitted_detour.unclashed [], admitted_detour.sources,
      assets_pair "new/../out" (List.mem_cons_of_mem _ List.mem_cons_self)⟩
  have htraced := (Build.Traced.start detour pairInputs builtDisk).run hapart (upwards 4)
  have hcourse := htraced.courses _
    (hjobs ▸ List.mem_cons_of_mem _ List.mem_cons_self : _ ∈ (detourBuild (upwards 4)).jobs)
  have hkept := hcourse.1 ["out".toList, "a.rs.hash".toList] (.inr (by decide))
    (detour.digest pairUnit).toByteArray
  exact isFresh_iff.2 ⟨hexist, Disk.readText_eq_ok.2
    ⟨_, (exists_of_leadsTo hdigest).1, hkept.2 rfl⟩⟩

theorem buildBy_detour : (detourBuild (upwards 5)).IsDone ∧
    (detour.buildBy (upwards 5) pairInputs builtDisk).1 = .ok (pairArtifacts true) ∧
      (detour.buildBy downwards pairInputs builtDisk).1 = .ok (pairArtifacts false) := by
  have hsorted : ∀ cached, (pairArtifacts cached).Pairwise fun x y =>
      x.input.path.less y.input.path = true := by decide
  have hresult : ∀ {schedule cached}, (detourBuild schedule).error? = none →
      ((detourBuild schedule).jobs.filterMap fun j => j.progress.artifact?) = pairArtifacts cached →
      (detour.buildBy schedule pairInputs builtDisk).1 = .ok (pairArtifacts cached) := by
    intro schedule cached he hjobs
    rw [buildBy, admitted_detour.unclashed]
    show (detourBuild schedule).result = _
    rw [Build.result, he, Build.artifacts, hjobs, sortByPath_of_pairwise (hsorted cached)]
  have hjobs : (detourBuild (upwards 5)).jobs = (pairArtifacts true).map fun x =>
      ⟨x.input, .done x⟩ := by
    have hstep := step_placed_of_fresh (a := Analysis.ofText []) rfl isFresh_detour
    have hbefore := detour_before.1
    rw [show upwards 5 = upwards 4 ++ [1] from rfl, detourBuild, Build.run_concat, ← detourBuild]
    generalize detourBuild (upwards 4) = b at hstep hbefore
    have he : b.error? = none := by
      rw [Build.error?, hbefore]
      rfl
    have hjob : b.jobs[1]? = some ⟨plainInput, .placed pairUnit (Analysis.ofText [])⟩ := by
      rw [hbefore]
      rfl
    have hkernels : kernelNames (Analysis.ofText []) = [] := by decide +kernel
    rw [Build.advance_of_job he hjob]
    dsimp only
    rw [hstep, hbefore, hkernels]
    rfl
  refine ⟨fun j hj => ?_, hresult ?_ ?_, hresult (by decide +kernel) (by decide +kernel)⟩
  · rw [hjobs] at hj
    obtain ⟨x, -, rfl⟩ := List.mem_map.1 hj
    exact ⟨x, rfl⟩
  · rw [Build.error?, hjobs]
    rfl
  · rw [hjobs]
    rfl

end Pair

end Generator

end KernelWrap
