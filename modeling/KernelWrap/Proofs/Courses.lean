import KernelWrap.Proofs.Freshness
import KernelWrap.Proofs.Parents

/-! The course of a generation among others. Inputs whose artifacts, digests and assets lie apart do
not write where another one reads, so each generation finds its source and its earlier output as they
were when the build began. What it has come to is told by that beginning: by the unit of the input, by
what a look at the artifact showed before the generation wrote it, and by what was rendered. -/

namespace KernelWrap

namespace Disk

variable {d d' e e' : Disk} {p : Path} {q r : Place} {W W' : Place → Prop}

theorem exist_iff : d.exist p = true ↔ ∃ q x, d.locate p = .ok q ∧ d.lookup q = some x := by
  unfold exist
  cases hf : d.find p with
  | error _ =>
    refine iff_of_false (by simp [Except.toOption]) ?_
    rintro ⟨q, x, h⟩
    rw [find_eq_ok.2 h] at hf
    cases hf
  | ok x => exact iff_of_true rfl ⟨x.1, x.2, find_eq_ok.1 hf⟩

theorem Puts.lookup_some (h : Puts W d d') {x : Entry} (hq : d.lookup q = some x) :
    ∃ y, d'.lookup q = some y := by
  induction h with
  | refl => exact ⟨x, hq⟩
  | @directory d₁ _ r _ _ hn ih =>
    by_cases hr : q = r
    · subst hr
      exact ⟨_, lookup_put_directory hn⟩
    · rw [lookup_put_of_ne _ hr]
      exact ih
  | @file d₁ _ r c _ _ _ hn ih =>
    by_cases hr : q = r
    · subst hr
      exact ⟨_, lookup_put_self d₁ (fun he => hn (by rw [he]; rfl)) _⟩
    · rw [lookup_put_of_ne _ hr]
      exact ih

theorem Puts.exist (h : Puts W d d') (hp : d.exist p = true) : d'.exist p = true := by
  obtain ⟨q, x, hq, hx⟩ := exist_iff.1 hp
  obtain ⟨y, hy⟩ := h.lookup_some hx
  exact exist_iff.2 ⟨q, y, h.locate hq, hy⟩

theorem enter_of_directory {piece : List Char} (h : d.enter q piece = .ok r)
    (he : e.lookup q = some .directory) : e.enter q piece = .ok r := by
  have hd := lookup_of_enter h
  unfold enter at h ⊢
  rw [hd] at h
  rw [he]
  exact h

theorem follow_singleton {piece : List Char} :
    d.follow q [piece] = .ok r ↔ d.enter q piece = .ok r := by
  rw [follow]
  split
  · next h => simp [h]
  · next h => simp [h, follow]

theorem locate_extended {s : String} (hs : '/' ∉ s.toList) (hh : e.here = d.here)
    (hd : d.locate (p.extended s) = .ok r) (he : e.locate p = .ok q) :
    e.locate (p.extended s) = .ok r := by
  obtain ⟨init, last, hpieces⟩ := Text.exists_pieces_concat '/' p.chars
  have hp : splitSlashes p.chars = init ++ [last] := by
    have h := hpieces [] List.not_mem_nil
    rwa [List.append_nil, List.append_nil] at h
  have hps : splitSlashes (p.extended s).chars = init ++ [last ++ s.toList] := hpieces _ hs
  obtain ⟨hvalid, hfd⟩ := locate_eq_ok.1 hd
  obtain ⟨⟨hne, -, -⟩, hfe⟩ := locate_eq_ok.1 he
  have habs : (p.extended s).isAbsolute = p.isAbsolute := by
    obtain ⟨c, t, hc⟩ := List.exists_cons_of_ne_nil hne
    rw [Path.isAbsolute, Path.isAbsolute, Path.extended, hc]
    rfl
  rw [habs, hps] at hfd
  rw [hp, hh] at hfe
  obtain ⟨m, hm, hlast⟩ := follow_append.1 hfd
  obtain ⟨m', hm', hlast'⟩ := follow_append.1 hfe
  obtain rfl : m' = m := (follow_eq hm').trans (follow_eq hm).symm
  refine locate_eq_ok.2 ⟨hvalid, ?_⟩
  rw [habs, hps, hh]
  refine follow_append.2 ⟨m', hm', follow_singleton.2 ?_⟩
  exact enter_of_directory (follow_singleton.1 hlast)
    (lookup_of_enter (follow_singleton.1 hlast'))

end Disk

theorem SourceUnit.load_eq_ok {d : Disk} {i : Input} {u : SourceUnit} : load d i = .ok u ↔
    ∃ q text, d.locate i.path = .ok q ∧ d.lookup q = some (.file text.toByteArray) ∧
      u = ofText i q.path text := by
  constructor
  · intro h
    unfold load at h
    split at h
    · cases h
    · next text ht =>
      obtain ⟨q, hq, hf⟩ := Disk.readText_eq_ok.1 ht
      rw [Disk.resolve, Disk.find_eq_ok.2 ⟨hq, hf⟩] at h
      exact ⟨q, text, hq, hf, (Except.ok.inj h).symm⟩
  · rintro ⟨q, text, hq, hf, rfl⟩
    rw [load, Disk.readText_eq_ok.2 ⟨q, hq, hf⟩, Disk.resolve, Disk.find_eq_ok.2 ⟨hq, hf⟩]
    rfl

namespace Generator

/-- Inputs that lie apart: no two have one artifact, and neither is a source where a generation
writes nor an asset where an artifact or a digest is written. -/
structure Apart (g : Generator) (here : Place) (inputs : List Input) : Prop where
  artifacts : (inputs.map (g.place here)).Nodup
  sources : ∀ i ∈ inputs, ∀ j ∈ inputs, ¬g.WritesTo here i (j.path.target here)
  assets : ∀ i ∈ inputs, ∀ j ∈ inputs, ∀ resolved text q,
    g.AssetAt here (.ofText i resolved text) q → q ≠ g.place here j ∧ q ≠ (g.place here j).digest

def MakesWay (g : Generator) (here : Place) (i : Input) (q : Place) : Prop :=
  (i.artifact g.out).Passes here q ∨
    ∃ resolved text p, g.asset? (.ofText i resolved text) = some p ∧ p.Passes here q

structure Later (g : Generator) (inputs : List Input) (d e : Disk) : Prop where
  puts : Disk.Puts (fun q => ∃ i ∈ inputs, g.WritesTo d.here i q) d e
  opens : Disk.Opens (fun q => ∃ i ∈ inputs, g.MakesWay d.here i q) d e

def Untouched (g : Generator) (i : Input) (d e : Disk) : Prop :=
  ∀ q, q = g.place d.here i ∨ q = (g.place d.here i).digest →
    ∀ c, e.lookup q = some (.file c) ↔ d.lookup q = some (.file c)

/-- Whether a generation found its artifact up to date at some moment before it wrote anything. -/
def Judged (g : Generator) (inputs : List Input) (d : Disk) (i : Input) (u : SourceUnit)
    (cached : Bool) : Prop :=
  ∃ e, g.Later inputs d e ∧ g.Untouched i d e ∧
    (!g.force && isFresh e (i.artifact g.out) (g.digest u)) = cached

structure Ready (g : Generator) (d : Disk) (i : Input) (u : SourceUnit) (a : Analysis) : Prop
    extends g.Loaded d i u a where
  asset : ∀ p, g.asset? u = some p → ∃ q, d.locate p = .ok q

def Holds (g : Generator) (d : Disk) (i : Input) (u : SourceUnit) (a : Analysis) : Prop :=
  ∃ text, renderUnit g.settings.support u a = .ok text ∧ d.readText (i.artifact g.out) = .ok text

structure Finished (g : Generator) (inputs : List Input) (d e : Disk) (i : Input) (u : SourceUnit)
    (a : Analysis) (artifact : Artifact) : Prop where
  eq : artifact = ⟨i, i.artifact g.out, kernelNames a, artifact.cached⟩
  ready : g.Ready e i u a
  judged : g.Judged inputs d i u artifact.cached
  fresh : isFresh e (i.artifact g.out) (g.digest u) = true
  kept : artifact.cached = true → g.Untouched i d e
  made : artifact.cached = false → g.Holds e i u a

/-- What is so on a disk `e` of a build that began with `d` when a generation has got so far. -/
def Course (g : Generator) (inputs : List Input) (d e : Disk) (i : Input) : Progress → Prop
  | .waiting | .started => g.Untouched i d e
  | .read text => g.Untouched i d e ∧ e.readText i.path = .ok text
  | .analyzed u a => g.Untouched i d e ∧ g.Loaded e i u a
  | .placed u a => g.Untouched i d e ∧ g.Ready e i u a
  | .rendered u a text => g.Judged inputs d i u false ∧ g.Ready e i u a ∧
      renderUnit g.settings.support u a = .ok text
  | .written u a => g.Judged inputs d i u false ∧ g.Ready e i u a ∧ g.Holds e i u a
  | .done artifact => ∃ u a, g.Finished inputs d e i u a artifact
  | .failed _ => True

section Stability

variable {g : Generator} {inputs : List Input} {i j : Input} {d e e' : Disk} {u v : SourceUnit}
  {a b : Analysis} {text : String} {W : Place → Prop}

theorem Later.refl (g : Generator) (inputs : List Input) (d : Disk) : g.Later inputs d d :=
  ⟨.refl, .refl d⟩

theorem Later.here (h : g.Later inputs d e) : e.here = d.here := h.puts.here

theorem Loaded.unique (hu : g.Loaded e i u a) (hv : g.Loaded e' i v b) (h : Disk.Puts W d e)
    (h' : Disk.Puts W d e') (hW : ¬W (i.path.target d.here)) : u = v ∧ a = b := by
  obtain ⟨q, s, hq, hs, rfl⟩ := SourceUnit.load_eq_ok.1 hu.load
  obtain ⟨r, t, hr, ht, rfl⟩ := SourceUnit.load_eq_ok.1 hv.load
  obtain rfl : q = i.path.target d.here := (Disk.locate_eq hq).trans (by rw [h.here])
  obtain rfl : r = i.path.target d.here := (Disk.locate_eq hr).trans (by rw [h'.here])
  have hst := ((h.lookup_file hW _).1 hs).symm.trans ((h'.lookup_file hW _).1 ht)
  obtain rfl : s = t := String.toByteArray_inj.1 (Entry.file.inj (Option.some.inj hst))
  exact ⟨rfl, Except.ok.inj (hu.check.symm.trans hv.check)⟩

theorem Untouched.puts (h : g.Untouched i d e) (hp : Disk.Puts W e e')
    (hW : ∀ q, q = g.place d.here i ∨ q = (g.place d.here i).digest → ¬W q) :
    g.Untouched i d e' :=
  fun q hq c => (hp.lookup_file (hW q hq) c).trans (h q hq c)

theorem Loaded.puts (h : g.Loaded e i u a) (hp : Disk.Puts W e e') (hs : ¬W (i.path.target e.here)) :
    g.Loaded e' i u a :=
  ⟨SourceUnit.load_puts hp h.load hs, h.check⟩

theorem Ready.puts (h : g.Ready e i u a) (hp : Disk.Puts W e e') (hs : ¬W (i.path.target e.here)) :
    g.Ready e' i u a :=
  ⟨h.toLoaded.puts hp hs, fun p ha => (h.asset p ha).imp fun _ => hp.locate⟩

theorem Holds.puts (h : g.Holds e i u a) (hp : Disk.Puts W e e') (ha : ¬W (g.place e.here i)) :
    g.Holds e' i u a :=
  h.imp fun _ => And.imp_right fun ht => hp.readText ht ha

theorem isFresh_puts {digest : String} (h : isFresh e (i.artifact g.out) digest = true)
    (hp : Disk.Puts W e e') (hd : ¬W (g.place e.here i).digest) :
    isFresh e' (i.artifact g.out) digest = true := by
  obtain ⟨hexist, hread⟩ := isFresh_iff.1 h
  exact isFresh_iff.2 ⟨hp.exist hexist, hp.readText hread (by rwa [target_hashPath])⟩

theorem Course.puts {p : Progress} (h : g.Course inputs d e i p) (hl : e.here = d.here)
    (hp : Disk.Puts W e e') (hs : ¬W (i.path.target d.here))
    (hW : ∀ q, q = g.place d.here i ∨ q = (g.place d.here i).digest → ¬W q) :
    g.Course inputs d e' i p := by
  have hsource : ¬W (i.path.target e.here) := hl ▸ hs
  have hplace : ¬W (g.place e.here i) := hW _ (.inl (by rw [hl]))
  have hdigest : ¬W (g.place e.here i).digest := hW _ (.inr (by rw [hl]))
  cases p with
  | waiting => exact Untouched.puts h hp hW
  | started => exact Untouched.puts h hp hW
  | read text => exact ⟨h.1.puts hp hW, hp.readText h.2 hsource⟩
  | analyzed u a => exact ⟨h.1.puts hp hW, h.2.puts hp hsource⟩
  | placed u a => exact ⟨h.1.puts hp hW, h.2.puts hp hsource⟩
  | rendered u a text => exact ⟨h.1, h.2.1.puts hp hsource, h.2.2⟩
  | written u a => exact ⟨h.1, h.2.1.puts hp hsource, h.2.2.puts hp hplace⟩
  | done artifact =>
    obtain ⟨u, a, h⟩ := h
    exact ⟨u, a, h.eq, h.ready.puts hp hsource, h.judged, isFresh_puts h.fresh hp hdigest,
      fun hc => (h.kept hc).puts hp hW, fun hc => (h.made hc).puts hp hplace⟩
  | failed x => trivial

end Stability

section Step

variable {g : Generator} {inputs : List Input} {i j : Input} {d e : Disk} {p : Progress}

theorem step_opens_analyzed (i : Input) (resolved : Path) (text : String) (a : Analysis) (e : Disk) :
    Disk.Opens (g.MakesWay e.here i) e (g.step i (.analyzed (.ofText i resolved text) a) e).2.1 := by
  have h := (placeAsset_opens g (.ofText i resolved text) e).mono (U := g.MakesWay e.here i)
    fun _ hq => .inr ⟨resolved, text, hq⟩
  rw [step]
  generalize g.placeAsset (.ofText i resolved text) e = placed at h ⊢
  obtain ⟨_ | _, _⟩ := placed <;> exact h

theorem step_opens_rendered (i : Input) (u : SourceUnit) (a : Analysis) (text : String) (e : Disk) :
    Disk.Opens (g.MakesWay e.here i) e (g.step i (.rendered u a text) e).2.1 := by
  have h := (writeArtifact_opens (i.artifact g.out) text e).mono (U := g.MakesWay e.here i)
    fun _ => .inl
  rw [step]
  generalize writeArtifact (i.artifact g.out) text e = written at h ⊢
  obtain ⟨_ | _, _⟩ := written <;> exact h

theorem step_opens_written (i : Input) (u : SourceUnit) (a : Analysis) (e : Disk) :
    Disk.Opens (g.MakesWay e.here i) e (g.step i (.written u a) e).2.1 := by
  rw [step]
  cases hw : e.writeText (hashPath (i.artifact g.out)) (g.digest u) with
  | error x => exact .refl e
  | ok e' => exact Disk.writeBytes_opens hw

theorem step_opens (hp : p.IsOf i) (e : Disk) :
    Disk.Opens (g.MakesWay e.here i) e (g.step i p e).2.1 := by
  cases p with
  | waiting => exact .refl e
  | started =>
    rw [step]
    cases e.readText i.path <;> exact .refl e
  | read text =>
    rw [step]
    dsimp only
    cases e.resolve i.path with
    | error x => exact .refl e
    | ok resolved =>
      dsimp only
      cases (Analysis.ofText (SourceUnit.ofText i resolved text).text.toList).check
        g.settings.strict <;> exact .refl e
  | analyzed u a =>
    obtain ⟨resolved, text, rfl⟩ := hp
    exact step_opens_analyzed i resolved text a e
  | placed u a =>
    rw [step]
    split
    · exact .refl e
    · split <;> exact .refl e
  | rendered u a text => exact step_opens_rendered i u a text e
  | written u a => exact step_opens_written i u a e
  | done artifact => exact .refl e
  | failed x => exact .refl e

theorem Later.step (h : g.Later inputs d e) (hi : i ∈ inputs) (hp : p.IsOf i) :
    g.Later inputs d (g.step i p e).2.1 where
  puts := h.puts.trans (((g.stepped i e p).puts hp).mono fun _ hq => ⟨i, hi, h.here ▸ hq⟩)
  opens := h.opens.trans ((step_opens hp e).mono fun _ hq => ⟨i, hi, h.here ▸ hq⟩)

theorem Apart.not_writesTo {here : Place} (hs : g.Apart here inputs) (hi : i ∈ inputs)
    (hj : j ∈ inputs) (hne : g.place here i ≠ g.place here j) {q : Place}
    (hq : q = g.place here j ∨ q = (g.place here j).digest) : ¬g.WritesTo here i q := by
  have hai := g.isArtifact_place here i
  have haj := g.isArtifact_place here j
  rintro (h | h | ⟨resolved, text, h⟩)
  · rcases hq with hq | hq
    · exact hne (h.symm.trans hq)
    · exact Place.digest_ne haj hai (hq.symm.trans h)
  · rcases hq with hq | hq
    · exact Place.digest_ne hai haj (h.symm.trans hq)
    · exact hne (Place.digest_inj hai haj (h.symm.trans hq))
  · obtain ⟨ha, hd⟩ := hs.assets i hi j hj resolved text q h
    exact hq.elim ha hd

theorem Apart.source_ne {here : Place} {q : Place} (hs : g.Apart here inputs) (hi : i ∈ inputs)
    (hq : g.WritesTo here i q) : i.path.target here ≠ q := by
  rintro rfl
  exact hs.sources i hi i hi hq

theorem isFresh_put {artifact : Path} {digest text : String} {q : Place}
    (hq : e.locate (hashPath artifact) = .ok q) (hd : e.lookup q ≠ some .directory)
    (ht : (e.put q (.file digest.toByteArray)).readText artifact = .ok text) :
    isFresh (e.put q (.file digest.toByteArray)) artifact digest = true := by
  obtain ⟨r, hr, hf⟩ := Disk.readText_eq_ok.1 ht
  exact isFresh_iff.2 ⟨Disk.exist_iff.2 ⟨r, _, hr, hf⟩, Disk.readText_put hq hd⟩

def Course.Continues (g : Generator) (inputs : List Input) (d e : Disk) (i : Input) (p : Progress) :
    Prop :=
  g.Course inputs d (g.step i p e).2.1 i (g.step i p e).1

theorem Course.read (hc : g.Course inputs d e i .started) :
    Course.Continues g inputs d e i .started := by
  rw [Course.Continues, Generator.step]
  cases h : e.readText i.path with
  | error x => trivial
  | ok text => exact ⟨hc, h⟩

theorem Course.analyze {text : String} (hc : g.Course inputs d e i (.read text)) :
    Course.Continues g inputs d e i (.read text) := by
  obtain ⟨hkept, hread⟩ := hc
  rw [Course.Continues, Generator.step]
  dsimp only
  cases hr : e.resolve i.path with
  | error x => trivial
  | ok resolved =>
    dsimp only
    cases ha : (Analysis.ofText (SourceUnit.ofText i resolved text).text.toList).check
        g.settings.strict with
    | error x => trivial
    | ok a =>
      refine ⟨hkept, ?_, ha⟩
      rw [SourceUnit.load, hread]
      dsimp only
      rw [hr]

theorem Course.place {u : SourceUnit} {a : Analysis} (hc : g.Course inputs d e i (.analyzed u a))
    (hl : g.Later inputs d e) (hs : g.Apart d.here inputs) (hi : i ∈ inputs) :
    Course.Continues g inputs d e i (.analyzed u a) := by
  obtain ⟨hkept, hloaded⟩ := hc
  obtain ⟨resolved, text, hu⟩ := hloaded.exists_ofText
  have hp := placeAsset_puts g u e
  rw [Course.Continues, Generator.step]
  generalize hplaced : g.placeAsset u e = placed at hp ⊢
  obtain ⟨x | _, e'⟩ := placed
  · trivial
  rw [hl.here, hu] at hp
  refine ⟨hkept.puts hp fun q hq hw => ?_, hloaded.puts hp fun hw => ?_,
    fun p => exists_locate_of_placeAsset hplaced⟩
  · obtain ⟨ha, hd⟩ := hs.assets i hi i hi resolved text q hw
    exact hq.elim ha hd
  · exact hs.source_ne hi (.inr (.inr ⟨resolved, text, hw⟩)) (by rw [hl.here])

theorem Course.judge {u : SourceUnit} {a : Analysis} (hc : g.Course inputs d e i (.placed u a))
    (hl : g.Later inputs d e) : Course.Continues g inputs d e i (.placed u a) := by
  obtain ⟨hkept, hready⟩ := hc
  rw [Course.Continues, Generator.step]
  cases hf : !g.force && isFresh e (i.artifact g.out) (g.digest u) with
  | true =>
    exact ⟨u, a, rfl, hready, ⟨e, hl, hkept, hf⟩, (Bool.and_eq_true_iff.1 hf).2, fun _ => hkept,
      fun hc => absurd hc.symm Bool.false_ne_true⟩
  | false =>
    rw [if_neg Bool.false_ne_true]
    cases hr : renderUnit g.settings.support u a with
    | error x => trivial
    | ok text => exact ⟨⟨e, hl, hkept, hf⟩, hready, hr⟩

theorem Course.write {u : SourceUnit} {a : Analysis} {text : String}
    (hc : g.Course inputs d e i (.rendered u a text)) (hl : g.Later inputs d e)
    (hs : g.Apart d.here inputs) (hi : i ∈ inputs) :
    Course.Continues g inputs d e i (.rendered u a text) := by
  obtain ⟨hjudged, hready, hr⟩ := hc
  rw [Course.Continues, Generator.step]
  obtain ⟨x, e', h, -⟩ | ⟨e₁, q, h, hp, hq, hd⟩ := writeArtifact_cases (i.artifact g.out) text e
  · rw [h]
    trivial
  rw [h]
  obtain rfl : q = g.place d.here i := eq_place_of_locate hq (hp.here.trans hl.here)
  have hput : Disk.Puts (· = g.place d.here i) e₁
      (e₁.put (g.place d.here i) (.file text.toByteArray)) := Disk.Puts.refl.file _ hq rfl hd
  have hsource : i.path.target e.here ≠ g.place d.here i := hl.here ▸ hs.source_ne hi (.inl rfl)
  exact ⟨hjudged, hready.puts ((hp.mono fun _ => False.elim).trans hput) hsource, text, hr,
    Disk.readText_put hq hd⟩

theorem Course.finish {u : SourceUnit} {a : Analysis} (hc : g.Course inputs d e i (.written u a))
    (hl : g.Later inputs d e) (hs : g.Apart d.here inputs) (hi : i ∈ inputs) :
    Course.Continues g inputs d e i (.written u a) := by
  obtain ⟨hjudged, hready, hholds⟩ := hc
  rw [Course.Continues, Generator.step]
  cases h : e.writeText (hashPath (i.artifact g.out)) (g.digest u) with
  | error x => trivial
  | ok e' =>
    obtain ⟨q, hq, hd, rfl⟩ := Disk.writeBytes_eq h
    obtain rfl : q = (g.place e.here i).digest := eq_digest_of_locate hq rfl
    have hplace := g.isArtifact_place e.here i
    have hput : Disk.Puts (· = (g.place e.here i).digest) e
        (e.put (g.place e.here i).digest (.file (g.digest u).toByteArray)) :=
      Disk.Puts.refl.file _ hq rfl hd
    have hsource : i.path.target e.here ≠ (g.place e.here i).digest :=
      hl.here ▸ hs.source_ne hi (.inr (.inl rfl))
    have hheld := hholds.puts hput (Place.digest_ne hplace hplace).symm
    obtain ⟨text, -, ht⟩ := id hheld
    exact ⟨u, a, rfl, hready.puts hput hsource, hjudged, isFresh_put hq hd ht,
      fun hc => absurd hc Bool.false_ne_true, fun _ => hheld⟩

theorem Course.step (hc : g.Course inputs d e i p) (hl : g.Later inputs d e)
    (hs : g.Apart d.here inputs) (hi : i ∈ inputs) : Course.Continues g inputs d e i p := by
  cases p with
  | waiting => exact hc
  | started => exact Course.read hc
  | read text => exact Course.analyze hc
  | analyzed u a => exact Course.place hc hl hs hi
  | placed u a => exact Course.judge hc hl
  | rendered u a text => exact Course.write hc hl hs hi
  | written u a => exact Course.finish hc hl hs hi
  | done artifact => exact hc
  | failed x => trivial

end Step

end Generator

namespace Build

variable {g : Generator} {b : Build} {inputs : List Input} {d : Disk}

/-- What holds of a build at every moment: each generation is on its course. -/
structure Traced (g : Generator) (inputs : List Input) (d : Disk) (b : Build) : Prop where
  isFor : b.IsFor inputs
  later : g.Later inputs d b.disk
  courses : ∀ j ∈ b.jobs, g.Course inputs d b.disk j.input j.progress

theorem Traced.finished (hb : b.Traced g inputs d) {j : Job} (hj : j ∈ b.jobs) {x : Artifact}
    (h : j.progress = .done x) : ∃ u a, g.Finished inputs d b.disk j.input u a x := by
  have hcourse := hb.courses j hj
  rwa [h] at hcourse

theorem Traced.start (g : Generator) (inputs : List Input) (d : Disk) :
    (Build.start d inputs).Traced g inputs d where
  isFor := .start d inputs
  later := .refl g inputs d
  courses := fun j hj => by
    obtain ⟨i, -, rfl⟩ := List.mem_map.1 hj
    exact fun _ _ _ => Iff.rfl

theorem Traced.advance (hb : b.Traced g inputs d) (hs : g.Apart d.here inputs) (n : Nat) :
    (b.advance g n).Traced g inputs d := by
  have hfor := (hb.isFor.advance (g := g) n).1
  obtain e | ⟨before, j, after, notices, hj, e⟩ := b.advance_split g n
  · rw [e]
    exact hb
  have hjob : j ∈ b.jobs := hj ▸ List.mem_append_right _ List.mem_cons_self
  have hin : ∀ k ∈ b.jobs, k.input ∈ inputs := fun k hk => hb.isFor.inputs ▸ List.mem_map_of_mem hk
  have hunit := hb.isFor.units j hjob
  have hputs := (g.stepped j.input b.disk j.progress).puts hunit
  rw [hb.later.here] at hputs
  have hother := hb.isFor.ne_of_nodup hs.artifacts hj
  rw [e] at hfor ⊢
  refine ⟨hfor, hb.later.step (hin j hjob) hunit, fun k hk => ?_⟩
  rcases mem_middle.1 hk with rfl | hk
  · exact (hb.courses j hjob).step hb.later hs (hin j hjob)
  · have hold : k ∈ b.jobs := hj ▸ mem_middle.2 (.inr hk)
    exact (hb.courses k hold).puts hb.later.here hputs (hs.sources _ (hin j hjob) _ (hin k hold))
      fun q hq => hs.not_writesTo (hin j hjob) (hin k hold) (hother k hk).symm hq

theorem Traced.run (hb : b.Traced g inputs d) (hs : g.Apart d.here inputs) (schedule : List Nat) :
    (b.run g schedule).Traced g inputs d := by
  induction schedule generalizing b with
  | nil => exact hb
  | cons n schedule ih => exact ih (hb.advance hs n)

end Build

end KernelWrap
