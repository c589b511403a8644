import KernelWrap.Proofs.Courses
import KernelWrap.Proofs.Turns

/-! Builds that find everything up to date. A generation whose unit can be loaded and whose digest lies
beside the artifact stops where it compares the digests, whatever the artifact holds. So a build of
such inputs writes nothing and reports all of them as they are. -/

namespace KernelWrap

theorem Generator.step_placed_of_fresh {g : Generator} {i : Input} {d : Disk} {u : SourceUnit}
    {a : Analysis} (hforce : g.force = false)
    (hf : isFresh d (i.artifact g.out) (g.digest u) = true) :
    g.step i (.placed u a) d = (.done ⟨i, i.artifact g.out, kernelNames a, true⟩, d,
      [.asked .force, .cached i.path]) := by
  rw [step]
  exact if_pos (by rw [hforce, hf]; rfl)

namespace Generator

/-- How far a generation gets that finds its artifact up to date. -/
def Replayed (g : Generator) (d : Disk) (i : Input) : Progress → Prop
  | .waiting | .started => True
  | .read text => d.readText i.path = .ok text
  | .analyzed u a | .placed u a => g.Loaded d i u a
  | .done artifact => ∃ u a, g.Loaded d i u a ∧
      artifact = ⟨i, i.artifact g.out, kernelNames a, true⟩
  | .rendered _ _ _ | .written _ _ | .failed _ => False

variable {g : Generator} {inputs : List Input} {i : Input} {d e : Disk} {u : SourceUnit}
  {a : Analysis} {p : Progress}

theorem Replayed.step (hp : g.Replayed d i p) (hassets : g.settings.assets = none)
    (hforce : g.force = false) (hl : g.Loaded d i u a)
    (hfresh : isFresh d (i.artifact g.out) (g.digest u) = true) :
    g.Replayed d i (g.step i p d).1 ∧ (g.step i p d).2.1 = d := by
  obtain ⟨q, text, hq, hf, hu⟩ := SourceUnit.load_eq_ok.1 hl.load
  have hread : d.readText i.path = .ok text := Disk.readText_eq_ok.2 ⟨q, hq, hf⟩
  have hsame : ∀ {v b}, g.Loaded d i v b → v = u := fun hv =>
    Except.ok.inj (hv.load.symm.trans hl.load)
  cases p with
  | waiting => exact ⟨trivial, rfl⟩
  | started =>
    rw [Generator.step, hread]
    exact ⟨hread, rfl⟩
  | read text' =>
    have hp : d.readText i.path = .ok text' := hp
    obtain rfl : text = text' := Except.ok.inj (hread.symm.trans hp)
    have hresolve : d.resolve i.path = .ok q.path := by
      rw [Disk.resolve, Disk.find_eq_ok.2 ⟨hq, hf⟩]
      rfl
    have hcheck : (Analysis.ofText (SourceUnit.ofText i q.path text).text.toList).check
        g.settings.strict = .ok a := hu ▸ hl.check
    rw [Generator.step]
    simp only [hresolve, hcheck]
    exact ⟨hu ▸ hl, trivial⟩
  | analyzed v b =>
    rw [Generator.step, placeAsset, hassets]
    exact ⟨hp, rfl⟩
  | placed v b =>
    obtain rfl := hsame hp
    rw [step_placed_of_fresh hforce hfresh]
    exact ⟨⟨v, b, hp, rfl⟩, rfl⟩
  | rendered v b text => exact hp.elim
  | written v b => exact hp.elim
  | done artifact => exact ⟨hp, rfl⟩
  | failed x => exact hp.elim

def UpToDate (g : Generator) (d : Disk) (inputs : List Input) : Prop :=
  ∀ i ∈ inputs, ∃ u a, g.Loaded d i u a ∧ isFresh d (i.artifact g.out) (g.digest u) = true

end Generator

namespace Build

variable {g : Generator} {b : Build} {inputs : List Input} {d : Disk}

structure Replays (g : Generator) (inputs : List Input) (d : Disk) (b : Build) : Prop where
  isFor : b.IsFor inputs
  disk : b.disk = d
  jobs : ∀ j ∈ b.jobs, g.Replayed d j.input j.progress

theorem Replays.start (g : Generator) (inputs : List Input) (d : Disk) :
    (Build.start d inputs).Replays g inputs d where
  isFor := .start d inputs
  disk := rfl
  jobs := fun j hj => by
    obtain ⟨i, -, rfl⟩ := List.mem_map.1 hj
    trivial

theorem Replays.advance (hb : b.Replays g inputs d) (hassets : g.settings.assets = none)
    (hforce : g.force = false) (hd : g.UpToDate d inputs) (n : Nat) :
    (b.advance g n).Replays g inputs d := by
  have hfor := (hb.isFor.advance (g := g) n).1
  obtain e | ⟨before, j, after, notices, hj, e⟩ := b.advance_split g n
  · rw [e]
    exact hb
  have hjob : j ∈ b.jobs := hj ▸ List.mem_append_right _ List.mem_cons_self
  obtain ⟨u, a, hl, hfresh⟩ := hd j.input (hb.isFor.inputs ▸ List.mem_map_of_mem hjob)
  obtain ⟨hstep, hsame⟩ := (hb.jobs j hjob).step hassets hforce hl hfresh
  rw [e, hb.disk] at hfor ⊢
  refine ⟨hfor, hsame, fun k hk => ?_⟩
  rcases mem_middle.1 hk with rfl | hk
  · exact hstep
  · exact hb.jobs k (hj ▸ mem_middle.2 (.inr hk))

theorem Replays.run (hb : b.Replays g inputs d) (hassets : g.settings.assets = none)
    (hforce : g.force = false) (hd : g.UpToDate d inputs) (schedule : List Nat) :
    (b.run g schedule).Replays g inputs d := by
  induction schedule generalizing b with
  | nil => exact hb
  | cons n schedule ih => exact ih (hb.advance hassets hforce hd n)

theorem Replays.error?_eq_none (hb : b.Replays g inputs d) : b.error? = none :=
  Build.error?_eq_none.2 fun j hj => by
    have h := hb.jobs j hj
    generalize j.progress = p at h
    cases p with
    | failed x => exact h.elim
    | _ => rfl

end Build

namespace Generator

variable {g : Generator} {inputs : List Input} {i : Input} {d : Disk} {t : List Nat}

/-- A build that finds every digest succeeds, reports every artifact as cached and changes nothing. -/
theorem buildBy_of_upToDate (hassets : g.settings.assets = none) (hforce : g.force = false)
    (hclash : g.clash? [] inputs = none) (hd : g.UpToDate d inputs)
    (ht : Complete t inputs.length) : ∃ found notices,
      g.buildBy t inputs d = (.ok (sortByPath (fun a => a.input.path) found), d, notices) ∧
        List.Forall₂ (fun i artifact => ∃ u a, g.Loaded d i u a ∧
          artifact = ⟨i, i.artifact g.out, kernelNames a, true⟩) inputs found := by
  have hreplays := (Build.Replays.start g inputs d).run hassets hforce hd t
  have hdone := Build.isDone_of_complete ht hreplays.error?_eq_none
  refine ⟨_, ((Build.start d inputs).run g t).notices, ?_, hdone.forall₂ hreplays.isFor ?_⟩
  · rw [buildBy, hclash]
    dsimp only
    rw [hdone.result, hreplays.disk, Build.artifacts]
  · intro j hj artifact e
    have hreplayed := hreplays.jobs j hj
    rwa [e] at hreplayed

/-- The digest beside an artifact is all that decides whether it is reported as it is. -/
theorem buildBy_singleton_of_fresh {u : SourceUnit} {a : Analysis}
    (hassets : g.settings.assets = none) (hforce : g.force = false) (hl : g.Loaded d i u a)
    (hfresh : isFresh d (i.artifact g.out) (g.digest u) = true) (ht : Complete t 1) :
    ∃ notices, g.buildBy t [i] d = (.ok [⟨i, i.artifact g.out, kernelNames a, true⟩], d, notices) := by
  have hd : g.UpToDate d [i] := fun j hj => by
    obtain rfl := List.mem_singleton.1 hj
    exact ⟨u, a, hl, hfresh⟩
  obtain ⟨found, notices, hbuild, hfound⟩ := buildBy_of_upToDate hassets hforce rfl hd ht
  obtain ⟨artifact, rest, ⟨v, b, hv, rfl⟩, hrest, rfl⟩ := List.forall₂_cons_left_iff.1 hfound
  obtain rfl := List.forall₂_nil_left_iff.1 hrest
  obtain rfl := Except.ok.inj (hv.load.symm.trans hl.load)
  obtain rfl := Except.ok.inj (hv.check.symm.trans hl.check)
  rw [sortByPath, List.mergeSort_singleton] at hbuild
  exact ⟨notices, hbuild⟩

end Generator

end KernelWrap
