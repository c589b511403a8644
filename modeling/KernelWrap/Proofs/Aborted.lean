import KernelWrap.Proofs.Links
import KernelWrap.Proofs.Turns

/-! Generations that fail before they write. Up to the turn in which it writes its artifact, a
generation puts no file anywhere but at the place of its asset; and what it has written it does not
take back. So a generation that fails before has left its artifact and its digest alone, whatever
the other generations did between its turns. A source with a malformed declaration ends a strict
generation before it asks whether the artifact is fresh. -/

namespace KernelWrap

/-- The failures of a generation that has not come to writing its artifact. -/
def GenerateError.PrecedesWriting : GenerateError → Prop
  | .unread _ _ | .unresolved _ _ | .malformed _ _ | .noDirectory _ _ | .uncopied _ _ _
  | .unbound _ _ => True
  | .clash _ _ _ | .unwritten _ _ | .noDigest _ _ => False

/-- Whether a generation has written its artifact. -/
def Progress.Wrote : Progress → Prop
  | .written _ _ => True
  | .done artifact => artifact.cached = false
  | .failed (.noDigest _ _) => True
  | _ => False

theorem GenerateError.PrecedesWriting.not_wrote {e : GenerateError} (h : e.PrecedesWriting) :
    ¬(Progress.failed e).Wrote := by
  cases e with
  | noDigest _ _ => exact h.elim
  | _ => exact id

namespace Generator

def AssetOf (g : Generator) (here : Place) (i : Input) (q : Place) : Prop :=
  ∃ resolved text, g.AssetAt here (.ofText i resolved text) q

def WritesElsewhere (g : Generator) (here : Place) (inputs : List Input) (n : Nat) (q : Place) :
    Prop :=
  ∃ m k, m ≠ n ∧ inputs[m]? = some k ∧ g.WritesTo here k q

section Steps

variable {g : Generator} {i : Input} {d d' : Disk} {p p' : Progress}

theorem wrote_step (h : p.Wrote) : (g.step i p d).1.Wrote := by
  cases p with
  | written u a =>
    rw [step]
    cases d.writeText (hashPath (i.artifact g.out)) (g.digest u) with
    | error e => exact trivial
    | ok d' => exact rfl
  | done a => exact h
  | failed e => exact h
  | _ => exact h.elim

theorem Stepped.puts_asset (h : g.Stepped i d p p' d') (hp : p.IsOf i) (hn : ¬p'.Wrote) :
    Disk.Puts (g.AssetOf d.here i) d d' := by
  refine h.puts_into hp (fun resolved text _ hq => ⟨resolved, text, hq⟩) ?_ ?_
  · rintro u a rfl
    exact absurd trivial hn
  · rintro artifact rfl hnew
    exact absurd hnew hn

end Steps

end Generator

namespace Build

variable {g : Generator} {b : Build} {inputs : List Input} {m n : Nat}

theorem advance_at (g : Generator) (b : Build) (n : Nat) : b.advance g n = b ∨
    ∃ j notices, b.jobs[n]? = some j ∧ b.advance g n =
      ⟨(g.step j.input j.progress b.disk).2.1,
        b.jobs.set n ⟨j.input, (g.step j.input j.progress b.disk).1⟩, notices⟩ := by
  by_cases he : b.error? = none
  · cases hj : b.jobs[n]? with
    | none => exact .inl (advance_of_none hj)
    | some j => exact .inr ⟨j, _, rfl, advance_of_job he hj⟩
  · exact .inl (advance_of_error he n)

theorem advance_job {j : Job} (hj : b.jobs[n]? = some j) : b.advance g n = b ∨
    (b.advance g n).disk = (g.step j.input j.progress b.disk).2.1 ∧
      (b.advance g n).jobs[n]? = some ⟨j.input, (g.step j.input j.progress b.disk).1⟩ := by
  obtain e | ⟨k, notices, hk, e⟩ := b.advance_at g n
  · exact .inl e
  · obtain rfl : k = j := Option.some.inj (hk.symm.trans hj)
    rw [e]
    exact .inr ⟨rfl, List.getElem?_set_self (List.getElem?_eq_some_iff.1 hj).1⟩

theorem jobs_advance_of_ne (h : m ≠ n) : (b.advance g m).jobs[n]? = b.jobs[n]? := by
  obtain e | ⟨j, notices, -, e⟩ := b.advance_at g m
  · rw [e]
  · rw [e]
    exact List.getElem?_set_ne h

theorem IsFor.getElem? (hb : b.IsFor inputs) (n : Nat) :
    inputs[n]? = (b.jobs[n]?).map Job.input := by
  rw [← hb.inputs, List.getElem?_map]

theorem IsFor.puts_of_ne (hb : b.IsFor inputs) (h : m ≠ n) :
    Disk.Puts (g.WritesElsewhere b.disk.here inputs n) b.disk (b.advance g m).disk := by
  obtain e | ⟨j, notices, hj, e⟩ := b.advance_at g m
  · rw [e]
    exact .refl
  · rw [e]
    have hputs := (g.stepped j.input b.disk j.progress).puts (hb.units j (List.mem_of_getElem? hj))
    have hinput : inputs[m]? = some j.input := by rw [hb.getElem?, hj, Option.map_some]
    exact hputs.mono fun q hq => ⟨m, j.input, h, hinput, hq⟩

def Spares (b : Build) (n : Nat) : Prop := ∀ j, b.jobs[n]? = some j → ¬j.progress.Wrote

theorem Spares.of_advance (h : (b.advance g m).Spares n) : b.Spares n := by
  intro j hj hw
  by_cases hm : m = n
  · subst hm
    obtain e | ⟨-, hjob⟩ := advance_job (g := g) hj
    · rw [e] at h
      exact h j hj hw
    · exact h _ hjob (Generator.wrote_step hw)
  · exact h j (by rw [jobs_advance_of_ne hm, hj]) hw

theorem Spares.of_run {schedule : List Nat} (h : (b.run g schedule).Spares n) : b.Spares n := by
  induction schedule generalizing b with
  | nil => exact h
  | cons m schedule ih => exact (ih (b := b.advance g m) h).of_advance

theorem IsFor.puts_of_spares (hb : b.IsFor inputs) {i : Input} (hi : inputs[n]? = some i)
    (h : (b.advance g n).Spares n) :
    Disk.Puts (g.AssetOf b.disk.here i) b.disk (b.advance g n).disk := by
  rw [hb.getElem?] at hi
  obtain ⟨j, hj, rfl⟩ := Option.map_eq_some_iff.1 hi
  obtain e | ⟨hdisk, hjob⟩ := advance_job (g := g) hj
  · rw [e]
    exact .refl
  · rw [hdisk]
    exact (g.stepped j.input b.disk j.progress).puts_asset (hb.units j (List.mem_of_getElem? hj))
      (h _ hjob)

theorem IsFor.puts_run {schedule : List Nat} (hb : b.IsFor inputs) {i : Input}
    (hi : inputs[n]? = some i) (h : (b.run g schedule).Spares n) :
    Disk.Puts (fun q => g.AssetOf b.disk.here i q ∨ g.WritesElsewhere b.disk.here inputs n q) b.disk
      (b.run g schedule).disk := by
  -- The job has not written in the end, so it had not written after any of its turns.
  induction schedule generalizing b with
  | nil => exact .refl
  | cons m schedule ih =>
    obtain ⟨hadvance, hall⟩ := hb.advance (g := g) m
    have hrest := ih hadvance h
    rw [hall.here] at hrest
    refine Disk.Puts.trans ?_ hrest
    by_cases hm : m = n
    · subst hm
      exact (hb.puts_of_spares hi (Spares.of_run (b := b.advance g m) h)).mono fun q hq => .inl hq
    · exact (hb.puts_of_ne hm).mono fun q hq => .inr hq

end Build

section Strict

open Declaration (ParseError)

variable {g : Generator} {inputs : List Input} {n : Nat} {i : Input} {text : String}
  {x : ParseError}

def Progress.Halted (i : Input) (text : String) (x : ParseError) : Progress → Prop
  | .waiting | .started => True
  | .read t => t = text
  | .failed e => e = .malformed i.path x
  | _ => False

theorem Progress.Halted.not_done {p : Progress} (h : p.Halted i text x) :
    p.artifact? = none ∧ ∀ e, p = .failed e → e = .malformed i.path x := by
  cases p with
  | done _ => exact h.elim
  | failed e => exact ⟨rfl, fun _ he => Progress.failed.inj he ▸ h⟩
  | _ => exact ⟨rfl, nofun⟩

theorem Disk.resolve_of_readText {d : Disk} {p : Path} (h : d.readText p = .ok text) :
    ∃ resolved, d.resolve p = .ok resolved := by
  obtain ⟨q, hq, hf⟩ := Disk.readText_eq_ok.1 h
  exact ⟨q.path, by rw [Disk.resolve, Disk.find_eq_ok.2 ⟨hq, hf⟩]; rfl⟩

theorem Analysis.check_of_head? {a : Analysis} (h : a.skipped.head? = some x) :
    a.check true = .error x := by
  obtain ⟨rest, hrest⟩ := List.head?_eq_some_iff.1 h
  unfold check
  rw [hrest]

theorem Progress.Halted.step {p : Progress} {d : Disk} (hp : p.Halted i text x)
    (hstrict : g.settings.strict = true) (hread : d.readText i.path = .ok text)
    (hx : (Analysis.ofText text.toList).skipped.head? = some x) :
    (g.step i p d).1.Halted i text x ∧ (g.step i p d).2.1 = d := by
  cases p with
  | waiting => exact ⟨trivial, rfl⟩
  | started =>
    rw [Generator.step, hread]
    exact ⟨rfl, rfl⟩
  | read t =>
    obtain rfl : t = text := hp
    obtain ⟨resolved, hresolved⟩ := Disk.resolve_of_readText hread
    have hcheck : (Analysis.ofText (SourceUnit.ofText i resolved t).text.toList).check
        g.settings.strict = .error x := by
      rw [hstrict]
      exact Analysis.check_of_head? hx
    rw [Generator.step]
    simp only [hresolved, hcheck]
    exact ⟨rfl, trivial⟩
  | failed e => exact ⟨hp, rfl⟩
  | _ => exact hp.elim

namespace Build

structure Halts (g : Generator) (inputs : List Input) (n : Nat) (i : Input) (text : String)
    (x : ParseError) (d : Disk) (b : Build) : Prop where
  isFor : b.IsFor inputs
  job : ∃ p, b.jobs[n]? = some ⟨i, p⟩ ∧ p.Halted i text x
  puts : Disk.Puts (g.WritesElsewhere d.here inputs n) d b.disk

theorem Halts.start (hi : inputs[n]? = some i) (d : Disk) :
    (start d inputs).Halts g inputs n i text x d where
  isFor := .start d inputs
  job := ⟨.waiting, by rw [Build.start, List.getElem?_map, hi, Option.map_some], trivial⟩
  puts := .refl

section Run

variable {b : Build} {d : Disk} (hstrict : g.settings.strict = true)
  (hread : d.readText i.path = .ok text)
  (hx : (Analysis.ofText text.toList).skipped.head? = some x)
  (hsource : ¬g.WritesElsewhere d.here inputs n (i.path.target d.here))
include hstrict hread hx hsource

theorem Halts.advance (h : b.Halts g inputs n i text x d) (m : Nat) :
    (b.advance g m).Halts g inputs n i text x d := by
  have hfor := (h.isFor.advance (g := g) m).1
  obtain ⟨p, hp, hhalted⟩ := h.job
  by_cases hm : m = n
  · subst hm
    obtain e | ⟨hdisk, hjob⟩ := advance_job (g := g) hp
    · rw [e]
      exact h
    · obtain ⟨hstep, hsame⟩ := hhalted.step hstrict (h.puts.readText hread hsource) hx
      exact ⟨hfor, ⟨_, hjob, hstep⟩, by rw [hdisk, hsame]; exact h.puts⟩
  · refine ⟨hfor, ⟨p, by rw [jobs_advance_of_ne hm, hp], hhalted⟩, h.puts.trans ?_⟩
    have hputs := h.isFor.puts_of_ne (g := g) hm
    rwa [h.puts.here] at hputs

theorem Halts.run (h : b.Halts g inputs n i text x d) (schedule : List Nat) :
    (b.run g schedule).Halts g inputs n i text x d := by
  induction schedule generalizing b with
  | nil => exact h
  | cons m schedule ih => exact ih (h.advance hstrict hread hx hsource m)

end Run

theorem Halts.eq_of_error {b : Build} {d : Disk} {e : GenerateError}
    (h : b.Halts g inputs n i text x d) (hi : inputs = [i]) (he : b.error? = some e) :
    e = .malformed i.path x := by
  obtain ⟨p, hp, hhalted⟩ := h.job
  obtain ⟨j, hjobs, -⟩ := List.map_eq_singleton_iff.1 (h.isFor.inputs.trans hi)
  have hmem := List.mem_of_getElem? hp
  obtain ⟨k, hk, hke⟩ := List.exists_of_findSome?_eq_some he
  rw [hjobs, List.mem_singleton] at hmem hk
  subst hk hmem
  refine hhalted.not_done.2 e ?_
  cases p with
  | failed e' => exact congrArg Progress.failed (Option.some.inj hke)
  | _ => cases hke

end Build

end Strict

namespace Generator

variable {g : Generator} {inputs : List Input} {d : Disk} {schedule : List Nat}

theorem buildBy_of_clash
    (h : ¬inputs.Pairwise fun i j => ¬(i.artifact g.out).same (j.artifact g.out) = true) :
    ∃ e, g.buildBy schedule inputs d = (.error e, d, []) := by
  cases hc : g.clash? [] inputs with
  | none => exact absurd (clash?_eq_none.1 hc).2 h
  | some e => exact ⟨e, by rw [buildBy, hc]⟩

theorem buildBy_of_halts {n : Nat} {i : Input} {text : String} {x : Declaration.ParseError}
    (h : ((Build.start d inputs).run g schedule).Halts g inputs n i text x d)
    (hs : Complete schedule inputs.length) :
    ∃ e, (g.buildBy schedule inputs d).1 = .error e ∧ (inputs = [i] → e = .malformed i.path x) := by
  obtain ⟨p, hp, hhalted⟩ := h.job
  rw [buildBy]
  cases hc : g.clash? [] inputs with
  | some e =>
    refine ⟨e, rfl, fun hi => ?_⟩
    rw [hi] at hc
    cases hc
  | none =>
    dsimp only
    rw [Build.result]
    cases he : ((Build.start d inputs).run g schedule).error? with
    | none =>
      obtain ⟨artifact, hdone⟩ := Build.isDone_of_complete hs he _ (List.mem_of_getElem? hp)
      obtain rfl : p = .done artifact := hdone
      exact hhalted.elim
    | some e => exact ⟨e, rfl, fun hi => h.eq_of_error hi he⟩

/-- A generation that fails before it comes to writing leaves its outputs alone. When two inputs
have one artifact, a build fails and leaves the disk as it is. No turn of a generation that fails for
its source, its asset or its bindings makes or changes a file, be it the artifact or the digest of
its input, unless its own asset is copied there; and the build has left a file as it was when no
other input of the build is written there either. A strict generation of a source with a malformed
declaration fails with the first of these, fresh or not, and no build in which it has its turns
succeeds. -/
theorem buildBy_aborted (g : Generator) (inputs : List Input) (d : Disk) (schedule : List Nat) :
    (¬(inputs.Pairwise fun i j => ¬(i.artifact g.out).same (j.artifact g.out) = true) →
      ∃ e, g.buildBy schedule inputs d = (.error e, d, [])) ∧
    (∀ n i e, ((Build.start d inputs).run g schedule).jobs[n]? = some ⟨i, .failed e⟩ →
      e.PrecedesWriting → ∀ q, ¬g.AssetOf d.here i q →
        (∀ s t, schedule = s ++ [n] ++ t → ∀ c,
          ((Build.start d inputs).run g (s ++ [n])).disk.lookup q = some (.file c) ↔
            ((Build.start d inputs).run g s).disk.lookup q = some (.file c)) ∧
        (¬g.WritesElsewhere d.here inputs n q → ∀ c,
          ((Build.start d inputs).run g schedule).disk.lookup q = some (.file c) ↔
            d.lookup q = some (.file c))) ∧
    ∀ n i text x, g.settings.strict = true → inputs[n]? = some i → d.readText i.path = .ok text →
      (Analysis.ofText text.toList).skipped.head? = some x →
      ¬g.WritesElsewhere d.here inputs n (i.path.target d.here) →
      (∀ j, ((Build.start d inputs).run g schedule).jobs[n]? = some j →
        j.progress.artifact? = none ∧ ∀ e, j.progress = .failed e → e = .malformed i.path x) ∧
      (Complete schedule inputs.length →
        ∃ e, (g.buildBy schedule inputs d).1 = .error e ∧
          (inputs = [i] → e = .malformed i.path x)) := by
  have hstart := Build.IsFor.start d inputs
  refine ⟨buildBy_of_clash, ?_, ?_⟩
  · intro n i e hjob he q hasset
    have hspares : ((Build.start d inputs).run g schedule).Spares n := fun j hj => by
      cases hjob.symm.trans hj
      exact he.not_wrote
    have hi : inputs[n]? = some i := by
      rw [(hstart.run schedule).1.getElem?, hjob, Option.map_some]
    refine ⟨fun s t hst c => ?_, fun helse c => ?_⟩
    · obtain ⟨hfor, hput⟩ := hstart.run (g := g) s
      rw [hst, Build.run_append, Build.run_concat] at hspares
      have hturn := hfor.puts_of_spares hi hspares.of_run
      rw [hput.here] at hturn
      rw [Build.run_concat]
      exact hturn.lookup_file hasset c
    · exact (hstart.puts_run hi hspares).lookup_file (not_or.2 ⟨hasset, helse⟩) c
  · intro n i text x hstrict hi hread hx hsource
    have hhalts := (Build.Halts.start hi d).run hstrict hread hx hsource schedule
    refine ⟨fun j hj => ?_, buildBy_of_halts hhalts⟩
    obtain ⟨p, hp, hhalted⟩ := hhalts.job
    cases hp.symm.trans hj
    exact hhalted.not_done

section Broken

def brokenInput : Input := ⟨⟨"src/k.cl".toList⟩, ⟨"k".toList⟩, false⟩

def brokenText : String := "kernel void k(int"

def brokenDisk (digest : String) : Disk :=
  ⟨[], [(["src".toList], .directory), (["src".toList, "k.cl".toList], .file brokenText.toByteArray),
    (["out".toList], .directory), (["out".toList, "k.rs".toList], .file "old".toByteArray),
    (["out".toList, "k.rs.hash".toList], .file digest.toByteArray)]⟩

def strictGenerator : Generator := ⟨{ strict := true }, ⟨"out".toList⟩, false, none⟩

def baselessGenerator : Generator := ⟨{ support := "1bad" }, ⟨"out".toList⟩, true, none⟩

def strictDigest : String :=
  strictGenerator.digest (.ofText brokenInput ⟨"/src/k.cl".toList⟩ brokenText)

theorem isFresh_broken (digest : String) :
    isFresh (brokenDisk digest) (brokenInput.artifact strictGenerator.out) digest = true := by
  have hread : (brokenDisk digest).readText (hashPath (brokenInput.artifact strictGenerator.out)) =
      .ok digest := Disk.readText_eq_ok.2 ⟨["out".toList, "k.rs.hash".toList], rfl, rfl⟩
  rw [isFresh, hread]
  exact beq_self_eq_true digest

theorem not_writesElsewhere_single (g : Generator) (here : Place) (i : Input) (q : Place) :
    ¬g.WritesElsewhere here [i] 0 q := by
  rintro ⟨m, k, hm, hk, -⟩
  obtain ⟨m, rfl⟩ := Nat.exists_eq_succ_of_ne_zero hm
  cases hk

theorem buildBy_aborted_broken :
    (∃ e, strictGenerator.buildBy [0] [brokenInput, brokenInput] (brokenDisk "") =
      (.error e, brokenDisk "", [])) ∧
    (∀ c, (baselessGenerator.build [brokenInput] (brokenDisk "")).2.1.lookup
        ["out".toList, "k.rs".toList] = some (.file c) ↔ c = "old".toByteArray) ∧
    isFresh (brokenDisk strictDigest) (brokenInput.artifact strictGenerator.out) strictDigest =
      true ∧
    ∃ x, (strictGenerator.build [brokenInput] (brokenDisk strictDigest)).1 =
      .error (.malformed brokenInput.path x) := by
  have hsame : ¬[brokenInput, brokenInput].Pairwise fun i j =>
      ¬(i.artifact strictGenerator.out).same (j.artifact strictGenerator.out) = true := by
    decide
  refine ⟨(buildBy_aborted _ _ _ _).1 hsame, fun c => ?_, ?_, ?_⟩
  · have hjob : ((Build.start (brokenDisk "") [brokenInput]).run baselessGenerator
        (roundRobin 1)).jobs[0]? =
          some ⟨brokenInput, .failed (.unbound brokenInput.path (.support "1bad"))⟩ := by
      decide +kernel
    have hasset : ¬baselessGenerator.AssetOf [] brokenInput ["out".toList, "k.rs".toList] := by
      rintro ⟨_, _, p, hp, -⟩
      cases hp
    have hkept := ((buildBy_aborted _ _ _ _).2.1 _ _ _ hjob trivial _ hasset).2
      (not_writesElsewhere_single _ _ _ _) c
    refine hkept.trans ?_
    show some (Entry.file "old".toByteArray) = some (.file c) ↔ _
    rw [Option.some_inj, Entry.file.injEq, eq_comm]
  · exact isFresh_broken _
  · have hread : (brokenDisk strictDigest).readText brokenInput.path = .ok brokenText :=
      Disk.readText_eq_ok.2 ⟨["src".toList, "k.cl".toList], rfl, rfl⟩
    have hskipped : (Analysis.ofText brokenText.toList).skipped.head?.isSome = true := by
      decide +kernel
    obtain ⟨x, hx⟩ := Option.isSome_iff_exists.1 hskipped
    obtain ⟨e, he, hmalformed⟩ := ((buildBy_aborted _ _ _ _).2.2 0 brokenInput brokenText x rfl rfl
      hread hx (not_writesElsewhere_single strictGenerator _ _ _)).2 (complete_roundRobin 1)
    exact ⟨x, hmalformed rfl ▸ he⟩

end Broken

/-- The artifact of a source that is a host file itself, and that is copied to the output
directory, is lost when its bindings cannot be generated. -/
def hostInput : Input := ⟨⟨"src/k.rs".toList⟩, ⟨"k".toList⟩, true⟩

def hostDisk : Disk :=
  .ofFiles [] [(⟨"src/k.rs".toList⟩, "kernel void k() \x7b\x7d".toByteArray),
    (⟨"out/k.rs".toList⟩, "old".toByteArray)]

def overwritingGenerator : Generator :=
  ⟨{ support := "1bad", extensions := ["rs"], referenced := true, assets := some ⟨"out".toList⟩ },
    ⟨"out".toList⟩, false, none⟩

theorem asset_over_artifact :
    (overwritingGenerator.build [hostInput] hostDisk).1 =
        .error (.unbound hostInput.path (.support "1bad")) ∧
      hostDisk.readText (hostInput.artifact overwritingGenerator.out) = .ok "old" ∧
      (overwritingGenerator.build [hostInput] hostDisk).2.1.readText
        (hostInput.artifact overwritingGenerator.out) = .ok "kernel void k() \x7b\x7d" := by
  decide +kernel

end Generator

end KernelWrap
