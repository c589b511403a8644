import KernelWrap.Proofs.Replays

/-! Sequences of builds and edits. They start on a disk without digests; an edit changes sources and
settings as it likes but leaves artifacts and digests to the builds, and no build stops between the
writes of an artifact and of its digest when an old digest is there. Then every digest is good, and
what a build reports, cached or not, is what it would render. The condition on stopped builds is
needed: the last build of this module finds the digest of one source beside the artifact of another. -/

namespace KernelWrap

structure Regular (met : List (List UInt8) → Prop) (g : Generator) (inputs : List Input)
    (schedule : List Nat) (d : Disk) : Prop where
  separate : g.Separate d.here inputs
  units : ∀ i ∈ inputs, ∀ u, SourceUnit.load ((Build.start d inputs).run g schedule).disk i = .ok u →
    met (g.parts u)

/-- A build that left no digest beside an artifact that it wrote anew without writing its digest. -/
def Whole (g : Generator) (inputs : List Input) (schedule : List Nat) (d : Disk) : Prop :=
  let b := (Build.start d inputs).run g schedule
  ∀ j ∈ b.jobs, j.progress.Torn →
    ∀ content, b.disk.lookup (g.place b.disk.here j.input).digest ≠ some (.file content)

/-- The disks that a sequence of builds and edits can lead to. Edits make no digest and leave those
that are there beside the artifacts that they belong to. -/
inductive Session (met : List (List UInt8) → Prop) : Disk → Prop
  | fresh {d : Disk} : (∀ q : Place, q.IsArtifact → ∀ content,
      d.lookup q.digest ≠ some (.file content)) → Session met d
  | edit {d d' : Disk} : Session met d → (∀ q : Place, q.IsArtifact → ∀ content,
      d'.lookup q.digest = some (.file content) →
        d.lookup q.digest = some (.file content) ∧ d'.lookup q = d.lookup q) → Session met d'
  | build {d : Disk} (g : Generator) (inputs : List Input) (schedule : List Nat) : Session met d →
      Regular met g inputs schedule d → Whole g inputs schedule d →
      Session met (g.buildBy schedule inputs d).2.1

section Session

variable {met : List (List UInt8) → Prop} {d : Disk} {g : Generator} {inputs : List Input}
  {schedule : List Nat}

theorem Regular.sound (h : Regular met g inputs schedule d) (hdistinct : Digest.Distinct met)
    (hd : Sealed met (fun _ => False) d) :
    ((Build.start d inputs).run g schedule).Sound met g inputs :=
  (Build.Sound.start hd).run h.separate hdistinct schedule h.units

theorem Session.isSealed (hdistinct : Digest.Distinct met) (h : Session met d) :
    Sealed met (fun _ => False) d := by
  induction h with
  | fresh hnone => exact fun q hq content hc => absurd hc (hnone q hq content)
  | edit _ hleave ih =>
    intro q hq content hc
    obtain ⟨hold, he⟩ := hleave q hq content hc
    exact (ih q hq content hold).imp_right fun hdesc => hdesc.of_lookup fun c hl => he.trans hl
  | build g inputs schedule _ hregular hwhole ih =>
    rw [Generator.buildBy]
    split
    · exact ih
    · intro q hq content hc
      refine .inr (((hregular.sound hdistinct ih).isSealed q hq content hc).resolve_left ?_)
      rintro ⟨j, hj, htorn, rfl⟩
      exact hwhole j hj htorn content hc

theorem Build.mem_artifacts {b : Build} {artifact : Artifact} :
    artifact ∈ b.artifacts ↔ ∃ j ∈ b.jobs, j.progress = .done artifact := by
  rw [Build.artifacts, sortByPath, List.mem_mergeSort, List.mem_filterMap]
  refine exists_congr fun j => and_congr_right fun _ => ?_
  cases j.progress <;> simp [Progress.artifact?]

namespace Build

variable {b : Build}

theorem mem_jobs_advance {j : Job} (hj : j ∈ b.jobs) (hdone : j.progress.artifact?.isSome) (n : Nat) :
    j ∈ (b.advance g n).jobs := by
  obtain e | ⟨before, k, after, notices, hjobs, e⟩ := b.advance_split g n
  · rwa [e]
  rw [e]
  rw [hjobs] at hj
  rcases mem_middle.1 hj with rfl | hj
  · have hrest : (g.step j.input j.progress b.disk).1 = j.progress := by
      cases hp : j.progress with
      | done artifact => rfl
      | _ => rw [hp] at hdone; cases hdone
    exact mem_middle.2 (.inl (by rw [hrest]))
  · exact mem_middle.2 (.inr hj)

/-- A build in which no generation is done has put artifacts and assets, and no digest. -/
theorem IsFor.run_undone (h : b.IsFor inputs)
    (hn : ∀ j ∈ (b.run g schedule).jobs, j.progress.artifact? = none) :
    Disk.Puts (fun q => ∃ i ∈ inputs, q = g.place b.disk.here i ∨
      ∃ resolved text, g.AssetAt b.disk.here (.ofText i resolved text) q)
      b.disk (b.run g schedule).disk := by
  induction schedule using List.reverseRecOn with
  | nil => exact .refl
  | append_singleton schedule n ih =>
    obtain ⟨hfor, hputs⟩ := h.run (g := g) schedule
    rw [run_append] at hn ⊢
    generalize b.run g schedule = c at hn ih hfor hputs ⊢
    have hn : ∀ j ∈ (c.advance g n).jobs, j.progress.artifact? = none := hn
    change Disk.Puts _ b.disk (c.advance g n).disk
    have hbefore : ∀ j ∈ c.jobs, j.progress.artifact? = none := fun j hj => by
      by_contra hdone
      exact hdone (hn j (mem_jobs_advance hj (Option.isSome_iff_ne_none.2 hdone) n))
    obtain e | ⟨before, j, after, p, d, notices, hjobs, hstep, e⟩ := c.advance_cases g n
    · rw [e]
      exact ih hbefore
    have hj : j ∈ c.jobs := hjobs ▸ List.mem_append_right _ List.mem_cons_self
    have hi : j.input ∈ inputs := hfor.inputs ▸ List.mem_map_of_mem hj
    have hp : p.artifact? = none := by
      rw [e] at hn
      exact hn ⟨j.input, p⟩ (mem_middle.2 (.inl rfl))
    rw [e]
    refine (ih hbefore).trans (hstep.puts_into (hfor.units j hj) ?_ ?_ ?_)
    · exact fun resolved text q hq => ⟨j.input, hi, .inr ⟨resolved, text, hputs.here ▸ hq⟩⟩
    · exact fun u a _ => ⟨j.input, hi, .inl (by rw [hputs.here])⟩
    · rintro artifact rfl -
      cases hp

end Build

end Session

section Idle

def idleText : String := "kernel void idle() {}"

def idleDisk : Disk :=
  ⟨[], [(["src".toList], .directory), (["src".toList, "k.cl".toList], .file idleText.toByteArray)]⟩

def idleInput : Input := ⟨⟨"src/k.cl".toList⟩, ⟨"k".toList⟩, false⟩

def idleUnit : SourceUnit := .ofText idleInput ⟨"/src/k.cl".toList⟩ idleText

def idleGenerator : Generator := ⟨{}, ⟨"out".toList⟩, false, none⟩

def idleParts (ps : List (List UInt8)) : Prop := ps = idleGenerator.parts idleUnit

theorem distinct_idle : Digest.Distinct idleParts where
  short := by
    rintro ps rfl
    decide +kernel
  unmistaken := by
    rintro ps qs rfl rfl _
    rfl

theorem separate_idle : idleGenerator.Separate [] [idleInput] where
  artifacts := List.nodup_singleton _
  sources := by
    intro i hi
    rw [List.mem_singleton.1 hi]
    intro h
    exact absurd h.lastChar? (by decide)
  assets := by
    rintro i hi resolved text q ⟨p, hp, -⟩
    rw [List.mem_singleton.1 hi] at hp
    cases hp

def idleBuild (d : Disk) (steps : Nat) : Build :=
  (Build.start d [idleInput]).run idleGenerator (List.replicate steps 0)

def idleResult : Disk :=
  (idleGenerator.buildBy (List.replicate 7 0) [idleInput] idleDisk).2.1

def leadsTo (d : Disk) (p : Path) (q : Place) : Bool :=
  match d.find p with
  | .ok (r, .file _) => r == q
  | _ => false

theorem exists_of_leadsTo {d : Disk} {p : Path} {q : Place} (h : leadsTo d p q = true) :
    d.locate p = .ok q ∧ ∃ content, d.lookup q = some (.file content) := by
  unfold leadsTo at h
  split at h
  · next r content hr =>
    obtain rfl := beq_iff_eq.1 h
    exact ⟨(Disk.find_eq_ok.1 hr).1, content, (Disk.find_eq_ok.1 hr).2⟩
  · cases h

theorem idle_runs :
    SourceUnit.load idleDisk idleInput = .ok idleUnit ∧
    (∀ j ∈ (idleBuild idleDisk 7).jobs, j.progress.artifact?.isSome = true) ∧
    (idleBuild idleResult 4).jobs =
      [⟨idleInput, .placed idleUnit (Analysis.ofText idleText.toList)⟩] ∧
    (idleBuild idleResult 4).disk.exist (idleInput.artifact idleGenerator.out) = true ∧
    leadsTo (idleBuild idleResult 4).disk (hashPath (idleInput.artifact idleGenerator.out))
      (idleGenerator.place [] idleInput).digest = true := by
  decide +kernel

theorem load_idle : SourceUnit.load idleDisk idleInput = .ok idleUnit := idle_runs.1

theorem session_idle : Session idleParts idleDisk := by
  refine .fresh fun q _ content hc => ?_
  have hm := Disk.mem_entries_of_lookup hc
  have hkeys : ∀ x ∈ idleDisk.entries, x.1.lastChar? ≠ some 'h' := by
    simp [idleDisk, Place.lastChar?]
  exact hkeys _ hm q.lastChar?_digest

section

variable {d : Disk} (hh : d.here = []) (hl : SourceUnit.load d idleInput = .ok idleUnit) (steps : Nat)
include hh hl

theorem load_idleBuild : (idleBuild d steps).disk.here = [] ∧
    SourceUnit.load (idleBuild d steps).disk idleInput = .ok idleUnit := by
  have hp := ((Build.IsFor.start d [idleInput]).run (g := idleGenerator) (List.replicate steps 0)).2
  have hs : idleGenerator.Separate d.here [idleInput] := hh ▸ separate_idle
  refine ⟨hp.here.trans hh, SourceUnit.load_puts hp hl ?_⟩
  rintro ⟨j, hj, h⟩
  exact hs.not_writesTo_source hj List.mem_cons_self h

theorem regular_idle :
    Regular idleParts idleGenerator [idleInput] (List.replicate steps 0) d where
  separate := hh ▸ separate_idle
  units := by
    intro i hi u hu
    rw [List.mem_singleton.1 hi] at hu
    exact (Except.ok.inj ((load_idleBuild hh hl steps).2.symm.trans hu)) ▸ rfl

end

theorem session_idleResult : Session idleParts idleResult := by
  refine .build _ _ _ session_idle (regular_idle rfl load_idle 7) fun j hj htorn => ?_
  have h := idle_runs.2.1 j hj
  rw [htorn.artifact?_eq_none] at h
  cases h

theorem load_idleResult :
    idleResult.here = [] ∧ SourceUnit.load idleResult idleInput = .ok idleUnit :=
  load_idleBuild rfl load_idle 7

theorem idleBuild_succ (d : Disk) (n : Nat) :
    idleBuild d (n + 1) = (idleBuild d n).advance idleGenerator 0 := by
  rw [idleBuild, List.replicate_succ', Build.run_append]
  rfl

theorem isFresh_rebuild : isFresh (idleBuild idleResult 4).disk
    (idleInput.artifact idleGenerator.out) (idleGenerator.digest idleUnit) = true := by
  obtain ⟨-, -, hjobs, hexist, hdigest⟩ := idle_runs
  obtain ⟨hlocate, content, hc⟩ := exists_of_leadsTo hdigest
  have hsound := (regular_idle load_idleResult.1 load_idleResult.2 4).sound distinct_idle
    (session_idleResult.isSealed distinct_idle)
  obtain ⟨j, hj, htorn, -⟩ | ⟨g, u, text, hmet, rfl, -, -⟩ :=
    hsound.isSealed _ (idleGenerator.isArtifact_place [] idleInput) content hc
  · have hj : j ∈ (idleBuild idleResult 4).jobs := hj
    rw [hjobs, List.mem_singleton] at hj
    rw [hj] at htorn
    exact htorn.elim
  · have hparts : g.parts u = idleGenerator.parts idleUnit := hmet
    rw [Generator.digest_eq, hparts] at hc
    exact isFresh_iff.2 ⟨hexist, Disk.readText_eq_ok.2 ⟨_, hlocate, hc⟩⟩

def edited (d : Disk) (text : String) : Disk :=
  d.put ["src".toList, "k.cl".toList] (.file text.toByteArray)

def wideName : List Char := List.replicate 59 '𝄞'

/-- The output directory by a path that leaves room for the path of an artifact, but not for that of
its digest. -/
def wideGenerator : Generator :=
  { idleGenerator with out := ⟨(List.replicate 17 (wideName ++ "/../".toList)).flatten ++
      "out".toList ++ List.replicate 7 '/'⟩ }

def leftText : String := "// using [left]"

def leftUnit : SourceUnit := .ofText idleInput ⟨"/src/k.cl".toList⟩ leftText

def wideDisk : Disk := ⟨[], [(["src".toList], .directory), ([wideName], .directory)]⟩

def leftResult : Disk :=
  (idleGenerator.buildBy (roundRobin 1) [idleInput] (edited wideDisk leftText)).2.1

theorem apart_idle : idleGenerator.Apart [] [idleInput] where
  artifacts := List.nodup_singleton _
  sources := by decide
  assets := by
    rintro i hi j hj resolved text q ⟨p, hp, -⟩
    rw [List.mem_singleton.1 hi] at hp
    cases hp

def tornBuild : Build :=
  (Build.start (edited leftResult "// using [right]") [idleInput]).run wideGenerator (roundRobin 1)

/-- The disk after a build of another source that cannot write the digest, with the first source back
in its place. -/
def outdated : Disk := edited tornBuild.disk leftText

theorem outdated_runs :
    SourceUnit.load leftResult idleInput = .ok leftUnit ∧
    ((Build.start (edited wideDisk leftText) [idleInput]).run idleGenerator (roundRobin 1)).IsDone ∧
    tornBuild.result = .error (.noDigest (hashPath (idleInput.artifact wideGenerator.out)) .tooLong) ∧
    (∀ j ∈ tornBuild.jobs, j.progress.artifact? = none) ∧
    SourceUnit.load outdated idleInput = .ok leftUnit ∧
    (Analysis.ofText leftText.toList).check false = .ok (Analysis.ofText leftText.toList) ∧
    Generator.kernelNames (Analysis.ofText leftText.toList) = [] ∧
    outdated.exist (idleInput.artifact idleGenerator.out) = true ∧
    leadsTo outdated (hashPath (idleInput.artifact idleGenerator.out))
      (idleGenerator.place [] idleInput).digest = true ∧
    (outdated.readBytes (idleInput.artifact idleGenerator.out)).toOption ≠
      (idleGenerator.rendering? leftUnit).map String.toByteArray ∧
    ((outdated.remove (hashPath (idleInput.artifact idleGenerator.out))).map fun d =>
        (idleGenerator.buildBy (roundRobin 1) [idleInput] d).1) =
      .ok (.ok [⟨idleInput, idleInput.artifact idleGenerator.out, [], false⟩]) := by
  -- Everything is evaluated at once, since the runs share most of their steps. No digest is needed.
  decide +kernel

theorem digest_leftResult : leftResult.lookup (idleGenerator.place [] idleInput).digest =
    some (.file (idleGenerator.digest leftUnit).toByteArray) := by
  obtain ⟨hload, hdone, -⟩ := outdated_runs
  have htraced := (Build.Traced.start idleGenerator [idleInput] (edited wideDisk leftText)).run
    apart_idle (roundRobin 1)
  obtain ⟨j, hj, hinput, artifact, e⟩ := hdone.exists_job htraced.isFor List.mem_cons_self
  obtain ⟨u, a, hfinished⟩ := htraced.finished hj e
  rw [hinput] at hfinished
  obtain rfl := Except.ok.inj (hfinished.ready.load.symm.trans hload)
  obtain ⟨q, hq, hf⟩ := Disk.readText_eq_ok.1 (isFresh_iff.1 hfinished.fresh).2
  rwa [Generator.eq_digest_of_locate hq htraced.later.here] at hf

theorem isFresh_outdated : isFresh outdated (idleInput.artifact idleGenerator.out)
    (idleGenerator.digest leftUnit) = true := by
  obtain ⟨-, -, -, hundone, -, -, -, hexist, hdigest, -⟩ := outdated_runs
  have hartifact := idleGenerator.isArtifact_place [] idleInput
  have hputs := (Build.IsFor.start (edited leftResult "// using [right]") [idleInput]).run_undone
    hundone
  have hedited : ∀ d text, (edited d text).lookup (idleGenerator.place [] idleInput).digest =
      d.lookup (idleGenerator.place [] idleInput).digest := fun d text =>
    Disk.lookup_put_of_ne d (by decide) _
  have hspared : ¬∃ i ∈ [idleInput], (idleGenerator.place [] idleInput).digest =
      wideGenerator.place (edited leftResult "// using [right]").here i ∨ ∃ resolved text,
        wideGenerator.AssetAt (edited leftResult "// using [right]").here (.ofText i resolved text)
          (idleGenerator.place [] idleInput).digest := by
    rintro ⟨i, hi, h | ⟨resolved, text, p, hp, -⟩⟩
    · exact Place.digest_ne hartifact (wideGenerator.isArtifact_place _ i) h
    · rw [List.mem_singleton.1 hi] at hp
      cases hp
  have hkept := (hputs.lookup_file hspared _).2 ((hedited leftResult _).trans digest_leftResult)
  exact isFresh_iff.2 ⟨hexist, Disk.readText_eq_ok.2
    ⟨_, (exists_of_leadsTo hdigest).1, (hedited _ leftText).trans hkept⟩⟩

end Idle

end KernelWrap
