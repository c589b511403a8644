import KernelWrap.Proofs.Links
import KernelWrap.Proofs.PathOrder
import KernelWrap.Proofs.Sessions

/-! Builds that are repeated. A build that succeeds leaves the digest of every unit beside its
artifact, and a unit is loaded from the disk that a build leaves as it was loaded during the build. So
every generation of the same build on that disk stops where it compares the digests, and nothing is
written. -/

namespace KernelWrap

namespace Generator

variable {g : Generator} {inputs : List Input} {d d₁ : Disk} {s t : List Nat}
  {artifacts : List Artifact} {notices : List Notice}

theorem apart_of_outside {here : Place} (hassets : g.settings.assets = none)
    (hlinks : ∀ i ∈ inputs, i.Linked) (hclash : g.clash? [] inputs = none)
    (hsources : ∀ i ∈ inputs, ¬g.out.target here <+: i.path.target here) :
    g.Apart here inputs := by
  have hnone : ∀ u q, ¬g.AssetAt here u q := by
    rintro u q ⟨p, hp, -⟩
    rw [asset?, hassets] at hp
    cases hp
  refine ⟨nodup_places hlinks hclash here, fun i hi j hj hw => hsources j hj ?_,
    fun _ _ _ _ _ _ q hq => absurd hq (hnone _ q)⟩
  obtain ⟨hplace, hdigest⟩ := g.out_prefix (hlinks i hi) here
  rcases hw with e | e | ⟨_, _, h⟩
  · exact e ▸ hplace
  · exact e ▸ hdigest
  · exact absurd h (hnone _ _)

theorem buildBy_eq_ok (h : g.buildBy s inputs d = (.ok artifacts, d₁, notices)) :
    g.clash? [] inputs = none ∧ ((Build.start d inputs).run g s).error? = none ∧
      ((Build.start d inputs).run g s).artifacts = artifacts ∧
      ((Build.start d inputs).run g s).disk = d₁ := by
  unfold buildBy at h
  split at h
  · cases h
  · next hclash =>
    simp only [Prod.mk.injEq] at h
    obtain ⟨hr, hd, -⟩ := h
    unfold Build.result at hr
    split at hr
    · cases hr
    · next he => exact ⟨hclash, he, Except.ok.inj hr, hd⟩

/-- A build that succeeded and is repeated on the disk that it left succeeds again: it finds all
artifacts up to date, the same artifacts with the same kernels, and changes nothing. -/
theorem buildBy_again (hassets : g.settings.assets = none) (hforce : g.force = false)
    (hlinks : ∀ i ∈ inputs, i.Linked)
    (hsources : ∀ i ∈ inputs, ¬g.out.target d.here <+: i.path.target d.here)
    (hs : Complete s inputs.length) (ht : Complete t inputs.length)
    (h : g.buildBy s inputs d = (.ok artifacts, d₁, notices)) :
    (artifacts.map Artifact.input).Perm inputs ∧
      ∃ notices', g.buildBy t inputs d₁ =
        (.ok (artifacts.map fun a => { a with cached := true }), d₁, notices') := by
  obtain ⟨hclash, hok, hartifacts, hdisk⟩ := buildBy_eq_ok h
  have hdone := Build.isDone_of_complete hs hok
  have htraced := (Build.Traced.start g inputs d).run
    (apart_of_outside hassets hlinks hclash hsources) s
  have hfinished : ∀ j ∈ ((Build.start d inputs).run g s).jobs, ∀ artifact,
      j.progress = .done artifact → ∃ u a, g.Finished inputs d d₁ j.input u a artifact :=
    fun j hj artifact e => hdisk ▸ htraced.finished hj e
  have hcurrent : g.UpToDate d₁ inputs := fun i hi => by
    obtain ⟨j, hj, rfl, artifact, e⟩ := hdone.exists_job htraced.isFor hi
    obtain ⟨u, a, hf⟩ := hfinished j hj artifact e
    exact ⟨u, a, hf.ready.toLoaded, hf.fresh⟩
  obtain ⟨found, notices', hbuild, hsecond⟩ :=
    buildBy_of_upToDate hassets hforce hclash hcurrent ht
  have hfirst := hdone.forall₂ htraced.isFor
    (R := fun i artifact => ∃ u a, g.Finished inputs d d₁ i u a artifact) hfinished
  have hinputs := hdone.map_input htraced.isFor fun j hj artifact e => by
    obtain ⟨u, a, hf⟩ := hfinished j hj artifact e
    rw [hf.eq]
  have hmap := eq_map_of_forall₂ (f := fun a => { a with cached := true }) hfirst hsecond
    fun i hi artifact artifact' ⟨u, a, hf⟩ ⟨v, b, hl, e⟩ => by
      obtain rfl := Except.ok.inj (hf.ready.load.symm.trans hl.load)
      obtain rfl := Except.ok.inj (hf.ready.check.symm.trans hl.check)
      rw [e, hf.eq]
  refine ⟨?_, notices', ?_⟩
  · rw [← hartifacts, Build.artifacts]
    exact ((sortByPath_perm _ _).map _).trans (.of_eq hinputs)
  · rw [hbuild, ← hartifacts, Build.artifacts, hmap]
    congr 2
    refine sortByPath_map (fun _ => ?_) _
    rfl

theorem buildBy_again_idle : ∃ artifact notices,
    idleGenerator.buildBy (roundRobin 1) [idleInput] idleDisk =
      (.ok [artifact], idleResult, notices) ∧
    ∃ notices', idleGenerator.buildBy (roundRobin 1) [idleInput] idleResult =
      (.ok [{ artifact with cached := true }], idleResult, notices') := by
  have hresult : (idleGenerator.buildBy (roundRobin 1) [idleInput] idleDisk).1 =
      .ok [⟨idleInput, idleInput.artifact idleGenerator.out,
        kernelNames (Analysis.ofText idleText.toList), false⟩] := by
    decide +kernel
  have hdisk : (idleGenerator.buildBy (roundRobin 1) [idleInput] idleDisk).2.1 = idleResult := rfl
  have hfirst := Prod.ext (y := (_, idleResult, _)) hresult (Prod.ext hdisk rfl)
  exact ⟨_, _, hfirst, (buildBy_again rfl rfl (by decide) (by decide)
    (complete_roundRobin 1) (complete_roundRobin 1) hfirst).2⟩

end Generator

end KernelWrap
