import KernelWrap.Build
import KernelWrap.Proofs.Digests
import KernelWrap.Proofs.Disks
import Mathlib.Data.List.Nodup

/-! What a generation leaves on a disk. An artifact lies at a place whose name ends in `.rs` and its
digest beside it, under the name of the artifact with `.hash` behind it; so no artifact lies where a
digest lies, and artifacts at different places have digests at different places. Each step of a
generation puts at most one file, at the place of its asset, of its artifact or of its digest. -/

namespace KernelWrap

namespace Place

def digest (p : Place) : Place := p.dropLast ++ [p.getLast?.getD [] ++ ".hash".toList]

def IsArtifact (p : Place) : Prop := ∃ dir n, p = dir ++ [n ++ ".rs".toList]

def IsOutput (p : Place) : Prop := p.IsArtifact ∨ ∃ q : Place, q.IsArtifact ∧ p = q.digest

theorem digest_concat (dir : Place) (n : List Char) :
    digest (dir ++ [n]) = dir ++ [n ++ ".hash".toList] := by
  rw [digest, List.dropLast_concat, List.getLast?_concat, Option.getD_some]

theorem digest_inj {p q : Place} (hp : p.IsArtifact) (hq : q.IsArtifact) (h : p.digest = q.digest) :
    p = q := by
  obtain ⟨d, m, rfl⟩ := hp
  obtain ⟨e, n, rfl⟩ := hq
  rw [digest_concat, digest_concat] at h
  obtain ⟨rfl, hn⟩ := List.append_inj' h rfl
  rw [List.append_cancel_right (List.singleton_inj.1 hn)]

theorem digest_ne {p q : Place} (hp : p.IsArtifact) (hq : q.IsArtifact) : p.digest ≠ q := by
  obtain ⟨d, m, rfl⟩ := hp
  obtain ⟨e, n, rfl⟩ := hq
  intro h
  rw [digest_concat] at h
  have hn := List.singleton_inj.1 (List.append_inj' h rfl).2
  have hl := congrArg List.getLast? hn
  simp [List.getLast?_append] at hl

def lastChar? (p : Place) : Option Char := p.getLast?.bind (·.getLast?)

theorem lastChar?_digest (p : Place) : p.digest.lastChar? = some 'h' := by
  simp [lastChar?, digest, List.getLast?_append]

theorem IsOutput.lastChar? {p : Place} (h : p.IsOutput) :
    p.lastChar? = some 's' ∨ p.lastChar? = some 'h' := by
  rcases h with ⟨dir, n, rfl⟩ | ⟨q, -, rfl⟩
  · exact .inl (by simp [Place.lastChar?, List.getLast?_append])
  · exact .inr q.lastChar?_digest

end Place

theorem Path.exists_target_extended (here : Place) (p : Path) : ∃ dir n, ∀ s : String,
    '/' ∉ s.toList → 2 < s.toList.length → (p.extended s).target here = dir ++ [n ++ s.toList] := by
  obtain ⟨init, last, h⟩ := Text.exists_pieces_concat '/' p.chars
  refine ⟨init.foldl Place.enter (if p.isAbsolute then [] else here), last, fun s hs hl => ?_⟩
  have habs : (p.extended s).isAbsolute = p.isAbsolute := by
    rw [isAbsolute, isAbsolute, extended, List.head?_append]
    cases p.chars with
    | nil => exact beq_false_of_ne fun e => hs (List.mem_of_mem_head? e)
    | cons c r => rfl
  have henter : ∀ q : Place, q.enter (last ++ s.toList) = q ++ [last ++ s.toList] := fun q => by
    have hlong : ∀ n : List Char, n.length ≤ 2 → last ++ s.toList ≠ n := fun n hn e => by
      have := congrArg List.length e
      rw [List.length_append] at this
      omega
    rw [Place.enter, if_neg (not_or.2 ⟨hlong _ (by decide), hlong _ (by decide)⟩),
      if_neg (hlong _ (by decide))]
  rw [target, habs, extended, splitSlashes, h _ hs, List.foldl_append, List.foldl_cons,
    List.foldl_nil, henter]

/-- Whether an artifact was written and its digest was not, or not yet. -/
def Progress.Torn : Progress → Prop
  | .written _ _ => True
  | .failed (.noDigest _ _) => True
  | _ => False

theorem Progress.Torn.artifact?_eq_none {p : Progress} (h : p.Torn) : p.artifact? = none := by
  cases p with
  | done _ => exact h.elim
  | _ => rfl

def Progress.IsOf (i : Input) : Progress → Prop
  | .analyzed u _ | .placed u _ | .rendered u _ _ | .written u _ =>
    ∃ resolved text, u = SourceUnit.ofText i resolved text
  | _ => True

namespace Generator

def place (g : Generator) (here : Place) (i : Input) : Place := (i.artifact g.out).target here

theorem exists_place_eq (g : Generator) (here : Place) (i : Input) : ∃ dir n,
    g.place here i = dir ++ [n ++ ".rs".toList] ∧
      (hashPath (i.artifact g.out)).target here = dir ++ [n ++ ".rs.hash".toList] := by
  obtain ⟨dir, n, h⟩ := Path.exists_target_extended here (g.out.join i.link)
  refine ⟨dir, n, h ".rs" (by decide) (by decide), ?_⟩
  have e : hashPath (i.artifact g.out) = (g.out.join i.link).extended ".rs.hash" := by
    rw [hashPath, Input.artifact, Path.extended, Path.extended, Path.extended, List.append_assoc]
    rfl
  rw [e, h ".rs.hash" (by decide) (by decide)]

theorem isArtifact_place (g : Generator) (here : Place) (i : Input) :
    (g.place here i).IsArtifact := by
  obtain ⟨dir, n, h, -⟩ := exists_place_eq g here i
  exact ⟨dir, n, h⟩

theorem target_hashPath (g : Generator) (here : Place) (i : Input) :
    (hashPath (i.artifact g.out)).target here = (g.place here i).digest := by
  obtain ⟨dir, n, h, e⟩ := exists_place_eq g here i
  rw [h, Place.digest_concat, e, List.append_assoc]
  rfl

section Locate

variable {g : Generator} {d : Disk} {i : Input} {here q : Place}

theorem eq_place_of_locate (hq : d.locate (i.artifact g.out) = .ok q) (hh : d.here = here) :
    q = g.place here i := by
  rw [place, ← hh, Disk.locate_eq hq]

theorem eq_digest_of_locate (hq : d.locate (hashPath (i.artifact g.out)) = .ok q)
    (hh : d.here = here) : q = (g.place here i).digest := by
  rw [← target_hashPath, ← hh, Disk.locate_eq hq]

end Locate

def asset? (g : Generator) (u : SourceUnit) : Option Path :=
  match g.settings.assets, u.embedded with
  | some assets, false => some (assets.join u.assetPath)
  | _, _ => none

section Steps

variable {g : Generator} {i : Input} {d d' : Disk}

theorem makeParent_puts {W : Place → Prop} (d : Disk) (file : Path) :
    Disk.Puts W d (makeParent d file).2 := by
  unfold makeParent
  split
  · exact .refl
  · next p _ =>
    have h := Disk.makeDirectories_puts (W := W) d p
    split
    · next hm => exact congrArg Prod.snd hm ▸ h
    · next hm => exact congrArg Prod.snd hm ▸ h

def AssetAt (g : Generator) (here : Place) (u : SourceUnit) (q : Place) : Prop :=
  ∃ p, g.asset? u = some p ∧ q = p.target here

instance {here : Place} {u : SourceUnit} {q : Place} : Decidable (g.AssetAt here u q) :=
  decidable_of_iff ((g.asset? u).any (q = Path.target here ·) = true)
    (by simp [AssetAt, Option.any_eq_true])

theorem placeAsset_puts (g : Generator) (u : SourceUnit) (d : Disk) :
    Disk.Puts (g.AssetAt d.here u) d (g.placeAsset u d).2 := by
  unfold placeAsset
  split
  · next assets ha he =>
    dsimp only
    have hp := makeParent_puts (W := g.AssetAt d.here u) d (assets.join u.assetPath)
    split
    · next hm => exact congrArg Prod.snd hm ▸ hp
    · next d₁ hm =>
      replace hp : Disk.Puts _ d d₁ := congrArg Prod.snd hm ▸ hp
      have hc := (Disk.copy_puts d₁ u.path (assets.join u.assetPath)).mono
        (V := g.AssetAt d.here u) fun q hq => ⟨assets.join u.assetPath, by rw [asset?, ha, he], by rw [hq, hp.here]⟩
      split
      · next hcopy => exact hp.trans (congrArg Prod.snd hcopy ▸ hc)
      · next hcopy => exact hp.trans (congrArg Prod.snd hcopy ▸ hc)
  · exact .refl

theorem writeArtifact_cases (artifact : Path) (text : String) (d : Disk) :
    (∃ e d', writeArtifact artifact text d = (.error e, d') ∧ Disk.Puts (fun _ => False) d d') ∨
      ∃ d₁ q, writeArtifact artifact text d = (.ok (), d₁.put q (.file text.toByteArray)) ∧
        Disk.Puts (fun _ => False) d d₁ ∧ d₁.locate artifact = .ok q ∧
        d₁.lookup q ≠ some .directory := by
  have hp := makeParent_puts (W := fun _ => False) d artifact
  unfold writeArtifact
  generalize makeParent d artifact = made at hp ⊢
  obtain ⟨r, d₁⟩ := made
  cases r with
  | error e => exact .inl ⟨e, d₁, rfl, hp⟩
  | ok _ =>
    dsimp only
    cases hw : d₁.writeText artifact text with
    | error e => exact .inl ⟨_, d₁, rfl, hp⟩
    | ok d₂ =>
      obtain ⟨q, hq, hd, rfl⟩ := Disk.writeBytes_eq hw
      exact .inr ⟨d₁, q, rfl, hp, hq, hd⟩

/-- What a step of a generation can do to its progress and to the disk. -/
inductive Stepped (g : Generator) (i : Input) (d : Disk) : Progress → Progress → Disk → Prop
  | start : Stepped g i d .waiting .started d
  | read {text : String} : d.readText i.path = .ok text → Stepped g i d .started (.read text) d
  | analyze {text : String} {resolved : Path} {a : Analysis} : d.resolve i.path = .ok resolved →
      (Analysis.ofText text.toList).check g.settings.strict = .ok a →
      Stepped g i d (.read text) (.analyzed (.ofText i resolved text) a) d
  | place {u : SourceUnit} {a : Analysis} {d' : Disk} : Disk.Puts (g.AssetAt d.here u) d d' →
      Stepped g i d (.analyzed u a) (.placed u a) d'
  | misplace {u : SourceUnit} {a : Analysis} {e : GenerateError} {d' : Disk} :
      Disk.Puts (g.AssetAt d.here u) d d' → Stepped g i d (.analyzed u a) (.failed e) d'
  | reuse {u : SourceUnit} {a : Analysis} : isFresh d (i.artifact g.out) (g.digest u) = true →
      Stepped g i d (.placed u a) (.done ⟨i, i.artifact g.out, kernelNames a, true⟩) d
  | render {u : SourceUnit} {a : Analysis} {text : String} :
      renderUnit g.settings.support u a = .ok text →
      Stepped g i d (.placed u a) (.rendered u a text) d
  | write {u : SourceUnit} {a : Analysis} {text : String} {d₁ : Disk} {q : Place} :
      Disk.Puts (fun _ => False) d d₁ → d₁.locate (i.artifact g.out) = .ok q →
      d₁.lookup q ≠ some .directory →
      Stepped g i d (.rendered u a text) (.written u a) (d₁.put q (.file text.toByteArray))
  | finish {u : SourceUnit} {a : Analysis} {q : Place} :
      d.locate (hashPath (i.artifact g.out)) = .ok q → d.lookup q ≠ some .directory →
      Stepped g i d (.written u a) (.done ⟨i, i.artifact g.out, kernelNames a, false⟩)
        (d.put q (.file (g.digest u).toByteArray))
  /-- The artifact is written, its digest is not. -/
  | tear {u : SourceUnit} {a : Analysis} (e : OsError) :
      Stepped g i d (.written u a) (.failed (.noDigest (hashPath (i.artifact g.out)) e)) d
  | fail {p : Progress} {e : GenerateError} {d' : Disk} : ¬p.Torn →
      Disk.Puts (fun _ => False) d d' → Stepped g i d p (.failed e) d'
  | rest {p : Progress} : p.artifact?.isSome ∨ p.error?.isSome → Stepped g i d p p d

section Kinds

variable (g : Generator) (i : Input) (d : Disk) (u : SourceUnit) (a : Analysis)

theorem stepped_read (text : String) : Stepped g i d (.read text) (g.step i (.read text) d).1
    (g.step i (.read text) d).2.1 := by
  rw [step]
  dsimp only
  cases h : d.resolve i.path with
  | error e => exact .fail id .refl
  | ok resolved =>
    dsimp only
    cases hc : (Analysis.ofText (SourceUnit.ofText i resolved text).text.toList).check
        g.settings.strict with
    | error e => exact .fail id .refl
    | ok a => exact .analyze h hc

theorem stepped_analyzed : Stepped g i d (.analyzed u a) (g.step i (.analyzed u a) d).1
    (g.step i (.analyzed u a) d).2.1 := by
  rw [step]
  have hp := placeAsset_puts g u d
  generalize g.placeAsset u d = placed at hp ⊢
  obtain ⟨e | _, d'⟩ := placed
  · exact .misplace hp
  · exact .place hp

theorem stepped_placed : Stepped g i d (.placed u a) (g.step i (.placed u a) d).1
    (g.step i (.placed u a) d).2.1 := by
  rw [step]
  by_cases hf : (!g.force && isFresh d (i.artifact g.out) (g.digest u)) = true
  · rw [if_pos hf]
    exact .reuse (Bool.and_eq_true_iff.1 hf).2
  · rw [if_neg hf]
    cases h : renderUnit g.settings.support u a with
    | error e => exact .fail id .refl
    | ok text => exact .render h

theorem stepped_rendered (text : String) : Stepped g i d (.rendered u a text)
    (g.step i (.rendered u a text) d).1 (g.step i (.rendered u a text) d).2.1 := by
  rw [step]
  obtain ⟨e, d', h, hp⟩ | ⟨d₁, q, h, hp, hq, hd⟩ := writeArtifact_cases (i.artifact g.out) text d
  · rw [h]
    exact .fail id hp
  · rw [h]
    exact .write hp hq hd

theorem stepped_written : Stepped g i d (.written u a) (g.step i (.written u a) d).1
    (g.step i (.written u a) d).2.1 := by
  rw [step]
  cases h : d.writeText (hashPath (i.artifact g.out)) (g.digest u) with
  | error e => exact .tear e
  | ok d' =>
    obtain ⟨q, hq, hd, rfl⟩ := Disk.writeBytes_eq h
    exact .finish hq hd

end Kinds

theorem stepped (g : Generator) (i : Input) (d : Disk) (p : Progress) :
    Stepped g i d p (g.step i p d).1 (g.step i p d).2.1 := by
  cases p with
  | waiting => exact .start
  | started =>
    rw [step]
    cases h : d.readText i.path with
    | error e => exact .fail id .refl
    | ok text => exact .read h
  | read text => exact stepped_read g i d text
  | analyzed u a => exact stepped_analyzed g i d u a
  | placed u a => exact stepped_placed g i d u a
  | rendered u a text => exact stepped_rendered g i d u a text
  | written u a => exact stepped_written g i d u a
  | done a => exact .rest (.inl rfl)
  | failed e => exact .rest (.inr rfl)

end Steps

def WritesTo (g : Generator) (here : Place) (i : Input) (q : Place) : Prop :=
  q = g.place here i ∨ q = (g.place here i).digest ∨
    ∃ resolved text, g.AssetAt here (.ofText i resolved text) q

theorem writesTo_iff {g : Generator} {here : Place} {i : Input} {q : Place} : g.WritesTo here i q ↔
    q = g.place here i ∨ q = (g.place here i).digest ∨ g.AssetAt here (.ofText i ⟨[]⟩ "") q :=
  or_congr_right (or_congr_right ⟨fun ⟨_, _, h⟩ => h, fun h => ⟨_, _, h⟩⟩)

instance {g : Generator} {here : Place} {i : Input} {q : Place} : Decidable (g.WritesTo here i q) :=
  decidable_of_iff _ writesTo_iff.symm

section Steps

variable {g : Generator} {i : Input} {d d' : Disk} {p p' : Progress}

theorem Stepped.isOf (h : g.Stepped i d p p' d') (hp : p.IsOf i) : p'.IsOf i := by
  cases h with
  | analyze => exact ⟨_, _, rfl⟩
  | place => exact hp
  | render => exact hp
  | write => exact hp
  | rest => exact hp
  | _ => trivial

/-- A step puts no file but the asset, the artifact when that is what it writes, and the digest when
it is done with a new artifact. -/
theorem Stepped.puts_into {W : Place → Prop} (h : g.Stepped i d p p' d') (hp : p.IsOf i)
    (hasset : ∀ resolved text q, g.AssetAt d.here (.ofText i resolved text) q → W q)
    (hartifact : ∀ u a, p' = .written u a → W (g.place d.here i))
    (hdigest : ∀ artifact, p' = .done artifact → artifact.cached = false →
      W (g.place d.here i).digest) : Disk.Puts W d d' := by
  cases h with
  | place h =>
    obtain ⟨resolved, text, rfl⟩ := hp
    exact h.mono (hasset resolved text)
  | misplace h =>
    obtain ⟨resolved, text, rfl⟩ := hp
    exact h.mono (hasset resolved text)
  | write h hq hd =>
    exact (h.mono nofun).file _ hq (eq_place_of_locate hq h.here ▸ hartifact _ _ rfl) hd
  | finish hq hd =>
    exact Disk.Puts.refl.file _ hq (eq_digest_of_locate hq rfl ▸ hdigest _ rfl rfl) hd
  | fail _ h => exact h.mono nofun
  | _ => exact .refl

theorem Stepped.puts (h : g.Stepped i d p p' d') (hp : p.IsOf i) :
    Disk.Puts (g.WritesTo d.here i) d d' :=
  h.puts_into hp (fun resolved text _ hq => .inr (.inr ⟨resolved, text, hq⟩))
    (fun _ _ _ => .inl rfl) fun _ _ _ => .inr (.inl rfl)

end Steps

end Generator

namespace Build

variable {g : Generator} {b : Build}

theorem advance_split (g : Generator) (b : Build) (n : Nat) : b.advance g n = b ∨
    ∃ before j after notices, b.jobs = before ++ j :: after ∧
      b.advance g n = ⟨(g.step j.input j.progress b.disk).2.1,
        before ++ ⟨j.input, (g.step j.input j.progress b.disk).1⟩ :: after, notices⟩ := by
  unfold advance
  split
  · next j _ hj =>
    obtain ⟨hn, hget⟩ := List.getElem?_eq_some_iff.1 hj
    have hsplit : b.jobs = b.jobs.take n ++ j :: b.jobs.drop (n + 1) := by
      rw [← hget, ← List.drop_eq_getElem_cons hn, List.take_append_drop]
    refine .inr ⟨_, j, _, b.notices ++ (g.step j.input j.progress b.disk).2.2, hsplit, ?_⟩
    generalize g.step j.input j.progress b.disk = r
    dsimp only
    rw [List.set_eq_take_append_cons_drop, if_pos hn]
  · exact .inl rfl

theorem advance_cases (g : Generator) (b : Build) (n : Nat) : b.advance g n = b ∨
    ∃ before j after p d notices, b.jobs = before ++ j :: after ∧
      g.Stepped j.input b.disk j.progress p d ∧
      b.advance g n = ⟨d, before ++ ⟨j.input, p⟩ :: after, notices⟩ := by
  obtain e | ⟨before, j, after, notices, hj, e⟩ := b.advance_split g n
  · exact .inl e
  · exact .inr ⟨before, j, after, _, _, notices, hj, g.stepped j.input b.disk j.progress, e⟩

theorem mem_middle {before after : List Job} {j k : Job} :
    k ∈ before ++ j :: after ↔ k = j ∨ k ∈ before ++ after :=
  List.perm_middle.mem_iff.trans List.mem_cons

structure IsFor (b : Build) (inputs : List Input) : Prop where
  inputs : b.jobs.map Job.input = inputs
  units : ∀ j ∈ b.jobs, j.progress.IsOf j.input

theorem IsFor.start (d : Disk) (inputs : List Input) : (start d inputs).IsFor inputs where
  inputs := by rw [Build.start, List.map_map]; exact List.map_id inputs
  units := fun j hj => by
    obtain ⟨i, -, rfl⟩ := List.mem_map.1 hj
    trivial

theorem IsFor.ne_of_nodup {inputs : List Input} {f : Input → Place} (h : b.IsFor inputs)
    (hn : (inputs.map f).Nodup) {before after : List Job} {j : Job}
    (hj : b.jobs = before ++ j :: after) : ∀ k ∈ before ++ after, f k.input ≠ f j.input := by
  rw [← h.inputs, hj, List.map_append, List.map_append, List.map_cons, List.map_cons,
    List.nodup_middle, List.nodup_cons] at hn
  intro k hk he
  refine hn.1 (he ▸ ?_)
  rw [← List.map_append, ← List.map_append]
  exact List.mem_map_of_mem (List.mem_map_of_mem hk)

theorem IsFor.advance {inputs : List Input} (h : b.IsFor inputs) (n : Nat) :
    (b.advance g n).IsFor inputs ∧
      Disk.Puts (fun q => ∃ i ∈ inputs, g.WritesTo b.disk.here i q) b.disk (b.advance g n).disk := by
  obtain e | ⟨before, j, after, p, d, notices, hj, hstep, e⟩ := b.advance_cases g n
  · rw [e]
    exact ⟨h, .refl⟩
  have hmem : j ∈ b.jobs := hj ▸ List.mem_append_right _ List.mem_cons_self
  have hunit := h.units j hmem
  rw [e]
  refine ⟨⟨?_, fun k hk => ?_⟩, (hstep.puts hunit).mono fun q hq =>
    ⟨j.input, h.inputs ▸ List.mem_map_of_mem hmem, hq⟩⟩
  · rw [← h.inputs, hj, List.map_append, List.map_append]
    rfl
  · rcases mem_middle.1 hk with rfl | hk
    · exact hstep.isOf hunit
    · exact h.units k (hj ▸ mem_middle.2 (.inr hk))

theorem IsFor.run {inputs : List Input} (schedule : List Nat) (h : b.IsFor inputs) :
    (b.run g schedule).IsFor inputs ∧
      Disk.Puts (fun q => ∃ i ∈ inputs, g.WritesTo b.disk.here i q) b.disk (b.run g schedule).disk := by
  induction schedule generalizing b with
  | nil => exact ⟨h, .refl⟩
  | cons n schedule ih =>
    obtain ⟨hn, hp⟩ := h.advance (g := g) n
    obtain ⟨hr, hq⟩ := ih hn
    rw [hp.here] at hq
    exact ⟨hr, hp.trans hq⟩

end Build

end KernelWrap
