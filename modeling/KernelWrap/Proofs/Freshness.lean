import KernelWrap.Proofs.Outputs
import Mathlib.Data.List.Nodup

/-! When a digest can be trusted. A digest on the disk is good when the artifact beside it holds what
some unit with that digest is rendered to. Every step of a build keeps all digests good but the one
of an artifact that was just written, and that one is good again once the digest is written too. So
a build that never stops between these two writes leaves good digests only, and an artifact that a
later build finds fresh is the one that it would render. -/

namespace KernelWrap

theorem SourceUnit.load_puts {W : Place → Prop} {d d' : Disk} {i : Input} {u : SourceUnit}
    (h : Disk.Puts W d d') (hl : SourceUnit.load d i = .ok u) (hq : ¬W (i.path.target d.here)) :
    SourceUnit.load d' i = .ok u := by
  unfold load at hl ⊢
  cases ht : d.readText i.path with
  | error e => rw [ht] at hl; cases hl
  | ok text =>
    rw [ht] at hl
    rw [h.readText ht hq]
    dsimp only at hl ⊢
    obtain ⟨q, hp, hf⟩ := Disk.readText_eq_ok.1 ht
    have hr : ∀ e : Disk, e.locate i.path = .ok q → e.lookup q = some (.file text.toByteArray) →
        e.resolve i.path = .ok q.path := fun e hp hf => by
      rw [Disk.resolve, Disk.find_eq_ok.2 ⟨hp, hf⟩]
      rfl
    rw [hr d hp hf] at hl
    rw [hr d' (h.locate hp) ((h.lookup_file (Disk.locate_eq hp ▸ hq) _).2 hf)]
    exact hl

theorem isFresh_iff {d : Disk} {artifact : Path} {digest : String} : isFresh d artifact digest = true ↔
    d.exist artifact = true ∧ d.readText (hashPath artifact) = .ok digest := by
  rw [isFresh, Bool.and_eq_true_iff]
  refine and_congr_right fun _ => ?_
  cases d.readText (hashPath artifact) <;> simp

/-- What a digest says of the artifact at a place: that it holds a unit of this digest. -/
def Described (met : List (List UInt8) → Prop) (d : Disk) (q : Place) (content : ByteArray) : Prop :=
  ∃ (g : Generator) (u : SourceUnit) (text : String), met (g.parts u) ∧
    content = (g.digest u).toByteArray ∧ g.rendering? u = some text ∧
    d.lookup q = some (.file text.toByteArray)

/-- Every digest on a disk describes the artifact that it lies beside, but for the places of
`torn`. -/
def Sealed (met : List (List UInt8) → Prop) (torn : Place → Prop) (d : Disk) : Prop :=
  ∀ q : Place, q.IsArtifact → ∀ content, d.lookup q.digest = some (.file content) →
    torn q ∨ Described met d q content

section Sealed

variable {met : List (List UInt8) → Prop} {torn torn' W : Place → Prop} {d d' : Disk}

theorem Sealed.mono (hs : Sealed met torn d) (h : ∀ q, torn q → torn' q) : Sealed met torn' d :=
  fun q hq content hc => (hs q hq content hc).imp_left (h q)

theorem Described.of_lookup {q : Place} {content : ByteArray} (h : Described met d q content)
    (hl : ∀ c, d.lookup q = some (.file c) → d'.lookup q = some (.file c)) :
    Described met d' q content := by
  obtain ⟨g, u, text, hm, hc, hr, hq⟩ := h
  exact ⟨g, u, text, hm, hc, hr, hl _ hq⟩

theorem Sealed.puts (hs : Sealed met torn d) (h : Disk.Puts W d d')
    (hW : ∀ q, W q → ¬q.IsOutput) : Sealed met torn d' := by
  intro q hq content hc
  have hd : ¬W q.digest := fun hw => hW _ hw (.inr ⟨q, hq, rfl⟩)
  have ha : ¬W q := fun hw => hW _ hw (.inl hq)
  exact (hs q hq content ((h.lookup_file hd content).1 hc)).imp_right fun hdesc =>
    hdesc.of_lookup fun c => (h.lookup_file ha c).2

theorem Sealed.put_artifact {p : Place} (hs : Sealed met torn d) (hp : p.IsArtifact)
    (content : ByteArray) : Sealed met (fun q => torn q ∨ p = q) (d.put p (.file content)) := by
  intro q hq c hc
  by_cases he : p = q
  · exact .inl (.inr he)
  rw [Disk.lookup_put_of_ne _ (Place.digest_ne hq hp)] at hc
  refine (hs q hq c hc).imp .inl fun hdesc => hdesc.of_lookup fun c hl => ?_
  rw [Disk.lookup_put_of_ne _ (Ne.symm he), hl]

theorem Sealed.put_digest {p : Place} (hs : Sealed met (fun q => torn q ∨ p = q) d) (hp : p.IsArtifact)
    {content : ByteArray} (hdesc : Described met d p content) :
    Sealed met torn (d.put p.digest (.file content)) := by
  have hl : ∀ {q : Place}, q.IsArtifact → ∀ c, d.lookup q = some (.file c) →
      (d.put p.digest (.file content)).lookup q = some (.file c) := fun hq c h => by
    rw [Disk.lookup_put_of_ne _ (Place.digest_ne hp hq).symm, h]
  intro q hq c hc
  by_cases he : p = q
  · subst he
    rw [Disk.lookup_put_self _ (by simp [Place.digest])] at hc
    cases hc
    exact .inr (hdesc.of_lookup (hl hq))
  · rw [Disk.lookup_put_of_ne _ fun e => he (Place.digest_inj hp hq e.symm)] at hc
    rcases hs q hq c hc with (ht | ht) | hq'
    · exact .inl ht
    · exact absurd ht he
    · exact .inr (hq'.of_lookup (hl hq))

end Sealed

namespace Generator

structure Loaded (g : Generator) (d : Disk) (i : Input) (u : SourceUnit) (a : Analysis) : Prop where
  load : SourceUnit.load d i = .ok u
  check : (Analysis.ofText u.text.toList).check g.settings.strict = .ok a

/-- The artifact of an input holds what the unit that the input names is rendered to. -/
def Current (g : Generator) (d : Disk) (i : Input) : Prop :=
  ∃ u text, SourceUnit.load d i = .ok u ∧ g.rendering? u = some text ∧
    d.readText (i.artifact g.out) = .ok text

/-- What a generation got from the disk on its way, and what it left there. -/
def Knows (g : Generator) (d : Disk) (i : Input) : Progress → Prop
  | .waiting | .started | .failed _ => True
  | .read text => d.readText i.path = .ok text
  | .analyzed u a | .placed u a => g.Loaded d i u a
  | .rendered u a text => g.Loaded d i u a ∧ renderUnit g.settings.support u a = .ok text
  | .written u a => g.Loaded d i u a ∧ ∃ text, renderUnit g.settings.support u a = .ok text ∧
      d.readText (i.artifact g.out) = .ok text
  | .done artifact => artifact.input = i ∧ artifact.path = i.artifact g.out ∧ g.Current d i

variable {g : Generator} {d d' : Disk} {i : Input} {u : SourceUnit} {a : Analysis} {text : String}

theorem Loaded.rendering (h : g.Loaded d i u a) (hr : renderUnit g.settings.support u a = .ok text) :
    g.rendering? u = some text := by
  rw [rendering?, h.check]
  dsimp only
  rw [hr]
  rfl

theorem Loaded.exists_ofText (h : g.Loaded d i u a) : ∃ resolved text, u = .ofText i resolved text := by
  have hl := h.load
  unfold SourceUnit.load at hl
  split at hl
  · cases hl
  · split at hl
    · cases hl
    · exact ⟨_, _, (Except.ok.inj hl).symm⟩

theorem lookup_place (h : d.readText (i.artifact g.out) = .ok text) :
    d.lookup (g.place d.here i) = some (.file text.toByteArray) := by
  obtain ⟨q, hq, hf⟩ := Disk.readText_eq_ok.1 h
  rw [← eq_place_of_locate hq rfl, hf]

theorem Knows.puts {W : Place → Prop} {p : Progress} (hk : g.Knows d i p) (h : Disk.Puts W d d')
    (hs : ¬W (i.path.target d.here)) (ha : ¬W (g.place d.here i)) : g.Knows d' i p := by
  have hl : ∀ {u a}, g.Loaded d i u a → g.Loaded d' i u a := fun hl =>
    ⟨SourceUnit.load_puts h hl.load hs, hl.check⟩
  cases p with
  | waiting => trivial
  | started => trivial
  | failed e => trivial
  | read text => exact h.readText hk hs
  | analyzed u a => exact hl hk
  | placed u a => exact hl hk
  | rendered u a text => exact ⟨hl hk.1, hk.2⟩
  | written u a =>
    obtain ⟨text, hr, ht⟩ := hk.2
    exact ⟨hl hk.1, text, hr, h.readText ht ha⟩
  | done artifact =>
    obtain ⟨hi, hp, u, text, hu, hr, ht⟩ := hk
    exact ⟨hi, hp, u, text, SourceUnit.load_puts h hu hs, hr, h.readText ht ha⟩

/-- Inputs that do not get in each other's way: their artifacts lie at different places, and neither
their sources nor their assets lie where an artifact or a digest can lie, or an asset where a source
lies. -/
structure Separate (g : Generator) (here : Place) (inputs : List Input) : Prop where
  artifacts : (inputs.map (g.place here)).Nodup
  sources : ∀ i ∈ inputs, ¬(i.path.target here).IsOutput
  assets : ∀ i ∈ inputs, ∀ resolved text q, g.AssetAt here (.ofText i resolved text) q →
    ¬q.IsOutput ∧ ∀ j ∈ inputs, q ≠ j.path.target here

section Step

variable {inputs : List Input} {p p' : Progress} {met : List (List UInt8) → Prop}
  {torn other : Place → Prop}

theorem Separate.not_writesTo_source (hs : g.Separate d.here inputs) {j : Input} (hi : i ∈ inputs)
    (hj : j ∈ inputs) : ¬g.WritesTo d.here i (j.path.target d.here) := by
  rintro (h | h | ⟨resolved, text, h⟩)
  · exact hs.sources j hj (.inl (h ▸ g.isArtifact_place d.here i))
  · exact hs.sources j hj (.inr ⟨_, g.isArtifact_place d.here i, h⟩)
  · exact (hs.assets i hi resolved text _ h).2 j hj rfl

theorem Separate.not_writesTo_place (hs : g.Separate d.here inputs) {j : Input} (hi : i ∈ inputs)
    (hne : g.place d.here j ≠ g.place d.here i) : ¬g.WritesTo d.here i (g.place d.here j) := by
  have hj := g.isArtifact_place d.here j
  rintro (h | h | ⟨resolved, text, h⟩)
  · exact hne h
  · exact Place.digest_ne (g.isArtifact_place d.here i) hj h.symm
  · exact (hs.assets i hi resolved text _ h).1 (.inl hj)

theorem Stepped.isSealed (h : g.Stepped i d p p' d') (hs : g.Separate d.here inputs) (hi : i ∈ inputs)
    (hk : g.Knows d i p) (hmet : ∀ u, SourceUnit.load d i = .ok u → met (g.parts u))
    (hd : Sealed met (fun q => other q ∨ p.Torn ∧ g.place d.here i = q) d) :
    Sealed met (fun q => other q ∨ p'.Torn ∧ g.place d.here i = q) d' := by
  have hplace := g.isArtifact_place d.here i
  have hasset : ∀ {u a}, g.Loaded d i u a → ∀ q, g.AssetAt d.here u q → ¬q.IsOutput := by
    intro u a hl q hq
    obtain ⟨resolved, text, rfl⟩ := hl.exists_ofText
    exact (hs.assets i hi resolved text q hq).1
  have hcalm : ¬p.Torn → Sealed met (fun q => other q ∨ p'.Torn ∧ g.place d.here i = q) d :=
    fun ht => hd.mono fun q => Or.imp_right fun h => absurd h.1 ht
  cases h with
  | place hp => exact (hcalm id).puts hp (hasset hk)
  | misplace hp => exact (hcalm id).puts hp (hasset hk)
  | @write u a text d₁ q hp hq hdir =>
    obtain rfl : q = g.place d.here i := eq_place_of_locate hq hp.here
    have hother : Sealed met other d := hd.mono fun q => fun h => h.resolve_right fun h => h.1
    exact ((hother.puts hp nofun).put_artifact hplace _).mono fun q => Or.imp_right fun h => ⟨trivial, h⟩
  | @finish u a q hq hdir =>
    obtain rfl : q = (g.place d.here i).digest := eq_digest_of_locate hq rfl
    obtain ⟨hl, text, hr, ht⟩ := hk
    have hdesc : Described met d (g.place d.here i) (g.digest u).toByteArray :=
      ⟨g, u, text, hmet u hl.load, rfl, hl.rendering hr, lookup_place ht⟩
    have hall : Sealed met (fun q => other q ∨ g.place d.here i = q) d :=
      hd.mono fun q => Or.imp_right And.right
    exact (hall.put_digest hplace hdesc).mono fun q => .inl
  | tear e => exact hd
  | fail ht hp => exact (hcalm ht).puts hp nofun
  | rest hr => exact hd
  | _ => exact hcalm id

theorem Loaded.current (hl : g.Loaded d i u a) (hdistinct : Digest.Distinct met)
    (hmet : met (g.parts u)) (hd : Sealed met torn d) (ht : ¬torn (g.place d.here i))
    (hf : isFresh d (i.artifact g.out) (g.digest u) = true) : g.Current d i := by
  obtain ⟨hexist, hread⟩ := isFresh_iff.1 hf
  obtain ⟨q, hq, hc⟩ := Disk.readText_eq_ok.1 hread
  obtain rfl : q = (g.place d.here i).digest := eq_digest_of_locate hq rfl
  obtain h | ⟨k, v, text, hv, hcontent, hr, hp⟩ := hd _ (g.isArtifact_place d.here i) _ hc
  · exact absurd h ht
  have hparts : g.parts u = k.parts v :=
    hdistinct.parts_eq hmet hv (String.toByteArray_inj.1 hcontent)
  refine ⟨u, text, hl.load, (rendering?_eq_of_parts hparts).trans hr, ?_⟩
  obtain ⟨r, hr⟩ := Disk.exists_locate_of_exist hexist
  obtain rfl : r = g.place d.here i := eq_place_of_locate hr rfl
  exact Disk.readText_eq_ok.2 ⟨_, hr, hp⟩

theorem Stepped.knows (h : g.Stepped i d p p' d') (hs : g.Separate d.here inputs) (hi : i ∈ inputs)
    (hk : g.Knows d i p) (hdistinct : Digest.Distinct met)
    (hmet : ∀ u, SourceUnit.load d i = .ok u → met (g.parts u))
    (hd : Sealed met torn d) (ht : ¬p.Torn → ¬torn (g.place d.here i)) : g.Knows d' i p' := by
  have hsource : ∀ q : Place, q.IsOutput → i.path.target d.here ≠ q :=
    fun q hq e => hs.sources i hi (e ▸ hq)
  have hplace := g.isArtifact_place d.here i
  cases h with
  | start => trivial
  | read hr => exact hr
  | analyze hr hc =>
    refine ⟨?_, hc⟩
    rw [SourceUnit.load, show d.readText i.path = _ from hk]
    dsimp only
    rw [hr]
  | @place u a d' hp =>
    obtain ⟨resolved, text, rfl⟩ := Loaded.exists_ofText hk
    have hasset := hs.assets i hi resolved text
    exact Knows.puts (p := .placed _ a) hk hp (fun hw => (hasset _ hw).2 i hi rfl)
      fun hw => (hasset _ hw).1 (.inl hplace)
  | misplace hp => trivial
  | reuse hf => exact ⟨rfl, rfl, hk.current hdistinct (hmet _ hk.load) hd (ht id) hf⟩
  | render hr => exact ⟨hk, hr⟩
  | @write u a text d₁ q hp hq hdir =>
    obtain rfl : q = g.place d.here i := eq_place_of_locate hq hp.here
    have hputs : Disk.Puts (· = g.place d.here i) d (d₁.put (g.place d.here i) (.file text.toByteArray)) :=
      (hp.mono nofun).file _ hq rfl hdir
    have hload := SourceUnit.load_puts hputs hk.1.load (hsource _ (.inl hplace))
    exact ⟨⟨hload, hk.1.check⟩, text, hk.2, Disk.readText_put hq hdir⟩
  | @finish u a q hq hdir =>
    obtain rfl : q = (g.place d.here i).digest := eq_digest_of_locate hq rfl
    have hputs : Disk.Puts (· = (g.place d.here i).digest) d
        (d.put (g.place d.here i).digest (.file (g.digest u).toByteArray)) :=
      Disk.Puts.refl.file _ hq rfl hdir
    obtain ⟨hl, text, hr, ht⟩ := Knows.puts (p := .written u a) hk hputs
      (hsource _ (.inr ⟨_, hplace, rfl⟩)) (Place.digest_ne hplace hplace).symm
    exact ⟨rfl, rfl, u, text, hl.load, hl.rendering hr, ht⟩
  | tear e => trivial
  | fail _ hp => trivial
  | rest hr => exact hk

end Step

end Generator

namespace Build

variable {g : Generator} {b : Build} {inputs : List Input} {met : List (List UInt8) → Prop}

def TornAt (g : Generator) (b : Build) (q : Place) : Prop :=
  ∃ j ∈ b.jobs, j.progress.Torn ∧ g.place b.disk.here j.input = q

structure Sound (met : List (List UInt8) → Prop) (g : Generator) (inputs : List Input) (b : Build) :
    Prop where
  isFor : b.IsFor inputs
  knows : ∀ j ∈ b.jobs, g.Knows b.disk j.input j.progress
  isSealed : Sealed met (b.TornAt g) b.disk

theorem Sound.advance (hb : b.Sound met g inputs) (hs : g.Separate b.disk.here inputs)
    (hdistinct : Digest.Distinct met)
    (hmet : ∀ i ∈ inputs, ∀ u, SourceUnit.load b.disk i = .ok u → met (g.parts u)) (n : Nat) :
    (b.advance g n).Sound met g inputs := by
  have hfor := (hb.isFor.advance (g := g) n).1
  obtain e | ⟨before, j, after, p, d, notices, hj, hstep, e⟩ := b.advance_cases g n
  · rw [e]
    exact hb
  have hmem : ∀ k, k ∈ b.jobs ↔ k = j ∨ k ∈ before ++ after := fun _ => hj ▸ mem_middle
  have hin : ∀ k ∈ b.jobs, k.input ∈ inputs := fun k hk => hb.isFor.inputs ▸ List.mem_map_of_mem hk
  have hjob : j ∈ b.jobs := (hmem j).2 (.inl rfl)
  have hknows := hb.knows j hjob
  have hputs := hstep.puts (hb.isFor.units j hjob)
  have hother := hb.isFor.ne_of_nodup hs.artifacts hj
  rw [e] at hfor ⊢
  refine ⟨hfor, fun k hk => ?_, ?_⟩
  · rcases mem_middle.1 hk with rfl | hk
    · refine hstep.knows hs (hin j hjob) hknows hdistinct (hmet _ (hin j hjob)) hb.isSealed ?_
      rintro hcalm ⟨k, hk, htorn, hplace⟩
      rcases (hmem k).1 hk with rfl | hk
      · exact hcalm htorn
      · exact hother k hk hplace
    · have hold := (hmem k).2 (.inr hk)
      exact (hb.knows k hold).puts hputs (hs.not_writesTo_source (hin j hjob) (hin k hold))
        (hs.not_writesTo_place (hin j hjob) (hother k hk))
  · have hd : Sealed met (fun q => (∃ k ∈ before ++ after, k.progress.Torn ∧
        g.place b.disk.here k.input = q) ∨ j.progress.Torn ∧ g.place b.disk.here j.input = q) b.disk := by
      refine hb.isSealed.mono fun q => ?_
      rintro ⟨k, hk, h⟩
      rcases (hmem k).1 hk with rfl | hk
      · exact .inr h
      · exact .inl ⟨k, hk, h⟩
    refine (hstep.isSealed hs (hin j hjob) hknows (hmet _ (hin j hjob)) hd).mono fun q => ?_
    rw [TornAt, hputs.here]
    rintro (⟨k, hk, h⟩ | h)
    · exact ⟨k, mem_middle.2 (.inr hk), h⟩
    · exact ⟨_, mem_middle.2 (.inl rfl), h⟩

theorem Sound.run (hb : b.Sound met g inputs) (hs : g.Separate b.disk.here inputs)
    (hdistinct : Digest.Distinct met) (schedule : List Nat)
    (hmet : ∀ i ∈ inputs, ∀ u, SourceUnit.load (b.run g schedule).disk i = .ok u → met (g.parts u)) :
    (b.run g schedule).Sound met g inputs := by
  induction schedule generalizing b with
  | nil => exact hb
  | cons n schedule ih =>
    obtain ⟨hn, hp⟩ := hb.isFor.advance (g := g) n
    -- Sources stay as they are, so the units that are met last are those that are met now.
    have hnow : ∀ i ∈ inputs, ∀ u, SourceUnit.load b.disk i = .ok u → met (g.parts u) := by
      intro i hi u hu
      refine hmet i hi u (SourceUnit.load_puts (hb.isFor.run (g := g) (n :: schedule)).2 hu ?_)
      rintro ⟨j, hj, h⟩
      exact hs.not_writesTo_source hj hi h
    exact ih (hb.advance hs hdistinct hnow n) (hp.here ▸ hs) hmet

theorem Sound.start {d : Disk} (hd : Sealed met (fun _ => False) d) :
    (Build.start d inputs).Sound met g inputs where
  isFor := .start d inputs
  knows := fun j hj => by
    obtain ⟨i, -, rfl⟩ := List.mem_map.1 hj
    trivial
  isSealed := hd.mono nofun

end Build

end KernelWrap
