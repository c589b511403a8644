import KernelWrap.Proofs.Pattern
import KernelWrap.Source.Directive

/-! Import directives wherever they stand. A directive is found at its first letter, whatever blanks
it is written with, and what stands between directives makes up none as long as the letters of
`using` do not occur there in a row. So the paths of a text are those of its directives. -/

namespace KernelWrap.Source
open Text Declaration

structure PathStep where
  before : List Char
  behind : List Char
  name : List Char
  before_blank : ∀ c ∈ before, isBlank c = true
  behind_blank : ∀ c ∈ behind, isBlank c = true
  name_legal : isIdent name = true ∨ name = ['*']

structure Directive where
  beforeOpen : List Char
  behindOpen : List Char
  first : List Char
  steps : List PathStep
  beforeClose : List Char
  beforeOpen_blank : ∀ c ∈ beforeOpen, isBlank c = true
  behindOpen_blank : ∀ c ∈ behindOpen, isBlank c = true
  first_legal : isIdent first = true
  beforeClose_blank : ∀ c ∈ beforeClose, isBlank c = true

def PathStep.text (p : PathStep) : List Char := p.before ++ ("::".toList ++ (p.behind ++ p.name))

namespace Directive

def spaced (d : Directive) : List Char := d.first ++ d.steps.flatMap PathStep.text

def path (d : Directive) : List Char := d.first ++ d.steps.flatMap fun p => "::".toList ++ p.name

def text (d : Directive) : List Char :=
  "using".toList ++ (d.beforeOpen ++ '[' :: (d.behindOpen ++ (d.spaced ++ (d.beforeClose ++ [']']))))

end Directive

def layOut (ps : List (List Char × Directive)) : List Char := ps.flatMap fun p => p.1 ++ p.2.text

section Blanks

theorem withoutBlanks_append (a b : List Char) :
    withoutBlanks (a ++ b) = withoutBlanks a ++ withoutBlanks b := List.filter_append a b

theorem withoutBlanks_of_blank {g : List Char} (h : ∀ c ∈ g, isBlank c = true) :
    withoutBlanks g = [] := by
  refine List.filter_eq_nil_iff.2 fun c hc => ?_
  rw [h c hc]
  exact Bool.false_ne_true

theorem withoutBlanks_of_isIdent {w : List Char} (h : isIdent w = true) : withoutBlanks w = w := by
  refine List.filter_eq_self.2 fun c hc => ?_
  rw [isBlank_of_isIdentChar (isIdentChar_of_mem h hc)]
  rfl

theorem PathStep.withoutBlanks_text (p : PathStep) :
    withoutBlanks p.text = "::".toList ++ p.name := by
  have hname : withoutBlanks p.name = p.name := by
    rcases p.name_legal with h | h
    · exact withoutBlanks_of_isIdent h
    · rw [h]
      decide
  have hcolons : withoutBlanks "::".toList = "::".toList := by decide
  rw [text, withoutBlanks_append, withoutBlanks_append, withoutBlanks_append, hname, hcolons,
    withoutBlanks_of_blank p.before_blank, withoutBlanks_of_blank p.behind_blank, List.nil_append,
    List.nil_append]

theorem Directive.withoutBlanks_spaced (d : Directive) : withoutBlanks d.spaced = d.path := by
  have hsteps : withoutBlanks (d.steps.flatMap PathStep.text) =
      d.steps.flatMap fun p => "::".toList ++ p.name := by
    induction d.steps with
    | nil => rfl
    | cons p ps ih =>
      rw [List.flatMap_cons, List.flatMap_cons, withoutBlanks_append, p.withoutBlanks_text, ih]
  rw [spaced, path, withoutBlanks_append, withoutBlanks_of_isIdent d.first_legal, hsteps]

end Blanks

section Readers

theorem head_blanks {g s : List Char} (hg : ∀ c ∈ g, isBlank c = true)
    (hs : ∀ c ∈ s.head?, isIdentChar c = false) : ∀ c ∈ (g ++ s).head?, isIdentChar c = false := by
  cases g with
  | nil => exact hs
  | cons d g =>
    rintro c ⟨⟩
    exact isIdentChar_of_isBlank (hg d List.mem_cons_self)

theorem head_isIdent {w : List Char} (h : isIdent w = true) (s : List Char) :
    ∀ c ∈ (w ++ s).head?, isBlank c = false := by
  cases w with
  | nil => cases h
  | cons d w =>
    rintro c ⟨⟩
    exact isBlank_of_isIdentChar (isIdentChar_of_mem h List.mem_cons_self)

theorem afterPart?_append {n s : List Char} (hn : isIdent n = true ∨ n = ['*'])
    (hs : ∀ c ∈ s.head?, isIdentChar c = false) : afterPart? (n ++ s) = some s := by
  rcases hn with hn | rfl
  · have hident := afterIdent?_append hn hs
    unfold afterPart?
    split
    · next t ht =>
      rw [ht] at hident
      cases hident
    · exact hident
  · rfl

theorem afterParts_of_none {s : List Char}
    (h : ((after? "::".toList (skipBlanks s)).bind fun t => afterPart? (skipBlanks t)) = none) :
    afterParts s = s := by
  rw [afterParts]
  split
  · rfl
  · next r hr =>
    rw [h] at hr
    cases hr

theorem afterParts_of_some {s r : List Char}
    (h : ((after? "::".toList (skipBlanks s)).bind fun t => afterPart? (skipBlanks t)) = some r) :
    afterParts s = afterParts r := by
  rw [afterParts]
  split
  · next hn =>
    rw [h] at hn
    cases hn
  · next r' hr =>
    rw [h] at hr
    rw [Option.some.inj hr]

theorem afterParts_steps (ps : List PathStep) {g : List Char} (hg : ∀ c ∈ g, isBlank c = true)
    (r : List Char) :
    afterParts (ps.flatMap PathStep.text ++ (g ++ ']' :: r)) = g ++ ']' :: r ∧
      ∀ c ∈ (ps.flatMap PathStep.text ++ (g ++ ']' :: r)).head?, isIdentChar c = false := by
  induction ps with
  | nil =>
    have hclose : skipBlanks (g ++ ']' :: r) = ']' :: r :=
      skipBlanks_append hg (by rintro c ⟨⟩; decide)
    rw [List.flatMap_nil, List.nil_append]
    refine ⟨afterParts_of_none ?_, head_blanks hg (by rintro c ⟨⟩; decide)⟩
    rw [hclose]
    rfl
  | cons p ps ih =>
    obtain ⟨hrest, hhead⟩ := ih
    have htext : (p :: ps).flatMap PathStep.text ++ (g ++ ']' :: r) = p.before ++ ("::".toList ++
        (p.behind ++ (p.name ++ (ps.flatMap PathStep.text ++ (g ++ ']' :: r))))) := by
      rw [List.flatMap_cons, PathStep.text]
      simp only [List.append_assoc]
    generalize ps.flatMap PathStep.text ++ (g ++ ']' :: r) = s at *
    have hname : ∀ c ∈ (p.name ++ s).head?, isBlank c = false := by
      rcases p.name_legal with h | h
      · exact head_isIdent h s
      · rw [h]
        rintro c ⟨⟩
        decide
    have hcolons : skipBlanks (p.before ++ ("::".toList ++ (p.behind ++ (p.name ++ s)))) =
        "::".toList ++ (p.behind ++ (p.name ++ s)) :=
      skipBlanks_append p.before_blank (by rintro c ⟨⟩; decide)
    rw [htext]
    refine ⟨(afterParts_of_some ?_).trans hrest, head_blanks p.before_blank (by rintro c ⟨⟩; decide)⟩
    rw [hcolons, after?_append, Option.bind_some, skipBlanks_append p.behind_blank hname,
      afterPart?_append p.name_legal hhead]

theorem Directive.directive?_text (d : Directive) (r : List Char) :
    directive? (d.text ++ r) = some (d.spaced, r) := by
  have hopen : ∀ t, skipBlanks (d.beforeOpen ++ '[' :: t) = '[' :: t := fun t =>
    skipBlanks_append d.beforeOpen_blank (by rintro c ⟨⟩; decide)
  have hbracket : ∀ t, after? ['['] ('[' :: t) = some t := after?_append ['[']
  have hfirst : ∀ t, skipBlanks (d.behindOpen ++ (d.first ++ t)) = d.first ++ t := fun t =>
    skipBlanks_append d.behindOpen_blank (head_isIdent d.first_legal t)
  have hclose : skipBlanks (d.beforeClose ++ ']' :: r) = ']' :: r :=
    skipBlanks_append d.beforeClose_blank (by rintro c ⟨⟩; decide)
  have hend : after? [']'] (']' :: r) = some r := after?_append [']'] r
  obtain ⟨hparts, hhead⟩ := afterParts_steps d.steps d.beforeClose_blank r
  have hident := afterIdent?_append d.first_legal hhead
  have htext : d.text ++ r = "using".toList ++ (d.beforeOpen ++ '[' :: (d.behindOpen ++ (d.first ++
      (d.steps.flatMap PathStep.text ++ (d.beforeClose ++ ']' :: r))))) := by
    rw [text, spaced]
    simp only [List.append_assoc, List.cons_append, List.nil_append]
  have htake : (d.first ++ (d.steps.flatMap PathStep.text ++ (d.beforeClose ++ ']' :: r))).take
      ((d.first ++ (d.steps.flatMap PathStep.text ++ (d.beforeClose ++ ']' :: r))).length -
        (d.beforeClose ++ ']' :: r).length) = d.spaced := by
    rw [← List.append_assoc, List.length_append, Nat.add_sub_cancel, List.take_left]
    rfl
  rw [htext]
  simp only [directive?, bind, pure, after?_append, Option.bind_some, hopen, hbracket, hfirst, hident,
    hparts, hclose, hend, htake]

theorem using_prefix_of_directive? {s p r : List Char} (h : directive? s = some (p, r)) :
    "using".toList <+: s := by
  rw [directive?] at h
  obtain ⟨t, ht, -⟩ := Option.bind_eq_some_iff.1 h
  exact ⟨t, (append_of_after? ht).symm⟩

end Readers

section Scanning

theorem directivesFrom_found {c : Char} {s p r : List Char} (h : directive? (c :: s) = some (p, r)) :
    directivesFrom false (c :: s) = p :: directivesFrom false r := by
  rw [directivesFrom]
  split
  · next p' r' h' =>
    rw [if_neg Bool.false_ne_true, h] at h'
    cases h'
    rfl
  · next h' =>
    rw [if_neg Bool.false_ne_true, h] at h'
    cases h'

theorem directivesFrom_passed {w : Bool} {c : Char} {s : List Char}
    (h : directive? (c :: s) = none) :
    directivesFrom w (c :: s) = directivesFrom (isWordChar c) s := by
  rw [directivesFrom]
  split
  · next p' r' h' =>
    rw [h, ite_self] at h'
    cases h'
  · rfl

theorem directive?_eq_none {s : List Char} (h : ¬ "using".toList <+: s) : directive? s = none := by
  rw [Option.eq_none_iff_forall_ne_some]
  exact fun p hp => h (using_prefix_of_directive? hp)

/-- No directive begins in a text before a directive: it would begin with the letters of `using`, and
these do not run across the end of the text. -/
theorem directivesFrom_append {w : Bool} {g s : List Char} (hfree : ¬ "using".toList <:+: g)
    (hend : ∀ c ∈ g.getLast?, isWordChar c = false) (hw : g = [] → w = false) :
    directivesFrom w (g ++ s) = directivesFrom false s := by
  induction g generalizing w with
  | nil => rw [hw rfl, List.nil_append]
  | cons c g ih =>
    have hnone : directive? (c :: (g ++ s)) = none := by
      refine directive?_eq_none fun hp => ?_
      have hg : c :: g <+: c :: (g ++ s) := ⟨s, rfl⟩
      rcases List.prefix_or_prefix_of_prefix hp hg with h | h
      · exact hfree h.isInfix
      · obtain ⟨d, hd⟩ := Option.isSome_iff_exists.1 (List.getLast?_isSome.2 (List.cons_ne_nil c g))
        have hword : ∀ d ∈ "using".toList, isWordChar d = true := List.all_eq_true.1 rfl
        have := hword d (h.subset (List.mem_of_getLast? hd))
        rw [hend d hd] at this
        cases this
    rw [List.cons_append, directivesFrom_passed hnone]
    refine ih (fun hi => hfree (hi.trans (List.suffix_cons c g).isInfix)) (fun d hd => ?_) ?_
    · refine hend d ?_
      rw [List.getLast?_cons, Option.mem_def.1 hd]
      rfl
    · rintro rfl
      exact hend c rfl

theorem directivesFrom_of_free {w : Bool} {s : List Char} (h : ¬ "using".toList <:+: s) :
    directivesFrom w s = [] := by
  induction s generalizing w with
  | nil => rw [directivesFrom]
  | cons c s ih =>
    rw [directivesFrom_passed (directive?_eq_none fun hp => h hp.isInfix)]
    exact ih fun hi => h (hi.trans (List.suffix_cons c s).isInfix)

theorem Directive.directivesFrom_text (d : Directive) (s : List Char) :
    directivesFrom false (d.text ++ s) = d.spaced :: directivesFrom false s :=
  directivesFrom_found (d.directive?_text s)

theorem directivesFrom_layOut {ps : List (List Char × Directive)} {rest : List Char}
    (hfree : ∀ p ∈ ps, ¬ "using".toList <:+: p.1)
    (hend : ∀ p ∈ ps, ∀ c ∈ p.1.getLast?, isWordChar c = false)
    (hrest : ¬ "using".toList <:+: rest) :
    directivesFrom false (layOut ps ++ rest) = ps.map fun p => p.2.spaced := by
  induction ps with
  | nil => exact directivesFrom_of_free hrest
  | cons p ps ih =>
    obtain ⟨hp, hps⟩ := List.forall_mem_cons.1 hfree
    obtain ⟨hl, hls⟩ := List.forall_mem_cons.1 hend
    have htext : layOut (p :: ps) ++ rest = p.1 ++ (p.2.text ++ (layOut ps ++ rest)) := by
      rw [layOut, List.flatMap_cons, ← layOut]
      simp only [List.append_assoc]
    rw [htext, directivesFrom_append hp hl fun _ => rfl, p.2.directivesFrom_text, ih hps hls,
      List.map_cons]

end Scanning

theorem nodup_eraseDups {α : Type} [BEq α] [LawfulBEq α] : (l : List α) → l.eraseDups.Nodup
  | [] => List.nodup_nil
  | a :: l => by
    rw [List.eraseDups_cons, List.nodup_cons, List.mem_eraseDups, List.mem_filter]
    refine ⟨fun h => ?_, nodup_eraseDups _⟩
    simp at h
  termination_by l => l.length
  decreasing_by exact Nat.lt_succ_of_le (List.length_filter_le _ _)

/-- The imports of a text are the paths of its directives without blanks, in the order in which they
come up first, and each of them once. No text has an import twice, or one with a blank in it. -/
theorem imports_layOut :
    (∀ (ps : List (List Char × Directive)) (rest : List Char),
      (∀ p ∈ ps, ¬ "using".toList <:+: p.1) →
      (∀ p ∈ ps, ∀ c ∈ p.1.getLast?, isWordChar c = false) → ¬ "using".toList <:+: rest →
      imports (layOut ps ++ rest) = (ps.map fun p => String.ofList p.2.path).eraseDups) ∧
    ∀ s, (imports s).Nodup ∧ ∀ i ∈ imports s, ∀ c ∈ i.toList, isBlank c = false := by
  refine ⟨?_, fun s => ⟨nodup_eraseDups _, fun i hi c hc => ?_⟩⟩
  · intro ps rest hfree hend hrest
    rw [imports, directivesFrom_layOut hfree hend hrest, List.map_map]
    refine congrArg List.eraseDups (List.map_congr_left fun p _ => ?_)
    exact congrArg String.ofList p.2.withoutBlanks_spaced
  · obtain ⟨p, -, rfl⟩ := List.mem_map.1 (List.mem_eraseDups.1 hi)
    rw [String.toList_ofList] at hc
    simpa using (List.mem_filter.1 hc).2

def spacedDirective : Directive where
  beforeOpen := [' ']
  behindOpen := ['\n', '\u2003']
  first := "crate".toList
  steps := [⟨[' '], ['\t'], "shapes".toList, List.all_eq_true.1 rfl, List.all_eq_true.1 rfl, by decide⟩,
    ⟨[], [], ['*'], List.forall_mem_nil _, List.forall_mem_nil _, by decide⟩]
  beforeClose := [' ']
  beforeOpen_blank := List.all_eq_true.1 rfl
  behindOpen_blank := List.all_eq_true.1 rfl
  first_legal := by decide
  beforeClose_blank := List.all_eq_true.1 rfl

def tightDirective : Directive where
  beforeOpen := []
  behindOpen := []
  first := "crate".toList
  steps := [⟨[], [], "shapes".toList, List.forall_mem_nil _, List.forall_mem_nil _, by decide⟩,
    ⟨[], [], ['*'], List.forall_mem_nil _, List.forall_mem_nil _, by decide⟩]
  beforeClose := []
  beforeOpen_blank := List.forall_mem_nil _
  behindOpen_blank := List.forall_mem_nil _
  first_legal := by decide
  beforeClose_blank := List.forall_mem_nil _

def repeatedDirectives : List (List Char × Directive) :=
  [("// ".toList, spacedDirective), ("kernel void k(int a)\x22 [x] ".toList, tightDirective),
    ([], tightDirective)]

def repeatedText : List Char :=
  ("// using [\n\u2003crate ::\tshapes::* ]kernel void k(int a)\x22 [x] " ++
    "using[crate::shapes::*]using[crate::shapes::*] use [x]").toList

theorem imports_layOut_repeated :
    layOut repeatedDirectives ++ " use [x]".toList = repeatedText ∧
      imports repeatedText = ["crate::shapes::*"] := by
  have htext : layOut repeatedDirectives ++ " use [x]".toList = repeatedText := by decide +kernel
  have hend : ∀ p ∈ repeatedDirectives, ∀ c ∈ p.1.getLast?, isWordChar c = false := by
    intro p hp c hc
    have hall : ∀ p ∈ repeatedDirectives, p.1.getLast?.all (fun c => !isWordChar c) = true := by
      decide
    have hlast := hall p hp
    rw [Option.mem_def.1 hc] at hlast
    simpa using hlast
  have himports := imports_layOut.1 repeatedDirectives " use [x]".toList (by decide +kernel) hend
    (by decide +kernel)
  have hpaths : (repeatedDirectives.map fun p => String.ofList p.2.path).eraseDups =
      ["crate::shapes::*"] := by decide
  rw [htext, hpaths] at himports
  exact ⟨htext, himports⟩

end KernelWrap.Source
