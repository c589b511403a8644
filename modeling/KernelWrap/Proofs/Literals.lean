import KernelWrap.Analysis
import KernelWrap.Proofs.Agreement
import KernelWrap.Proofs.LineNumbers
import KernelWrap.Proofs.Quotes

/-! What a string literal says. Neither normalizing nor reading knows of literals; both see the
characters between the quotes. But no declaration has a quote in it. So if two literals say no keyword,
and both of them or none end a header that they stand in, the same declarations are found around them
and the same ones are skipped: every line is read up to the first quote or from behind the second. -/

namespace KernelWrap.Declaration
open Text Source

/-- Texts whose lines are read alike, one after the other. -/
def TextsAlike (s s' : List Char) : Prop := List.Forall₂ Alike (splitLines s) (splitLines s')

namespace TextsAlike

theorem refl (s : List Char) : TextsAlike s s := List.forall₂_same.2 fun l _ => .refl l

theorem seam {a m m' r r' : List Char} (hm : '\n' ∉ m) (hm' : '\n' ∉ m')
    (hl : Alike (lineStart a ++ (m ++ lineEnd r)) (lineStart a ++ (m' ++ lineEnd r')))
    (hr : TextsAlike r r') : TextsAlike (a ++ (m ++ r)) (a ++ (m' ++ r')) := by
  have habove : List.Forall₂ Alike (splitLines a).dropLast (splitLines a).dropLast :=
    List.forall₂_same.2 fun l _ => .refl l
  have hbelow : List.Forall₂ Alike (splitLines r).tail (splitLines r').tail := by
    unfold TextsAlike at hr
    generalize splitLines r = ls at hr
    generalize splitLines r' = ls' at hr
    cases hr with
    | nil => exact .nil
    | cons _ h => exact h
  rw [TextsAlike, splitLines_middle a hm, splitLines_middle a hm']
  exact List.rel_append habove (.cons hl hbelow)

theorem lineFeeds {s s' : List Char} (h : TextsAlike s s') (n : Nat) :
    TextsAlike (List.replicate n '\n' ++ s) (List.replicate n '\n' ++ s') := by
  induction n with
  | zero => exact h
  | succ n ih =>
    rw [List.replicate_succ, List.cons_append, List.cons_append, TextsAlike, splitLines, splitLines,
      pieces_cons_self, pieces_cons_self]
    exact .cons (.refl []) ih

end TextsAlike

section Quotes

theorem apart_quote {a r : List Char} : Apart (a ++ ['\x22']) r :=
  apart_of_last (forall_getLast?_concat (by decide) a)

theorem kernelFree_nil : KernelFree [] := by
  rw [KernelFree, lexemes_nil]
  exact List.forall_mem_nil _

theorem kernelFree_symbol {a r : List Char} {c : Char} (hg : isGap c = false)
    (hi : isIdentChar c = false) (hc : symbolKind c ≠ .kernel) :
    KernelFree (a ++ c :: r) ↔ KernelFree a ∧ KernelFree r := by
  have ha : Apart a (c :: r) := apart_of_head fun d hd => by cases hd; exact hi
  have hs : KernelFree (c :: r) ↔ KernelFree r := by
    rw [KernelFree, lexemes_symbol hg hi, List.forall_mem_cons]
    exact and_iff_right hc
  rw [kernelFree_append ha, hs]

theorem kernelFree_quote {a r : List Char} :
    KernelFree (a ++ '\x22' :: r) ↔ KernelFree a ∧ KernelFree r :=
  kernelFree_symbol (by decide) (by decide) (by decide)

theorem alike_literal {b b' : List Char} (hb : KernelFree b) (hb' : KernelFree b') (u r : List Char) :
    Alike (u ++ '\x22' :: (b ++ '\x22' :: r)) (u ++ '\x22' :: (b' ++ '\x22' :: r)) := by
  by_cases hu : KernelFree u
  · have free : ∀ {b}, KernelFree b → KernelFree (u ++ '\x22' :: b ++ ['\x22']) := fun hb =>
      kernelFree_quote.2 ⟨kernelFree_quote.2 ⟨hu, hb⟩, kernelFree_nil⟩
    have := alike_of_kernelFree (m := r) (free hb) (free hb') apart_quote apart_quote
    simpa only [List.append_assoc, List.cons_append, List.nil_append] using this
  · exact alike_of_unknown hu (by decide) (by decide) (by decide)

theorem textsAlike_closing {b b' : List Char} (hb : KernelFree b) (hb' : KernelFree b')
    (hn : '\n' ∉ b) (hn' : '\n' ∉ b') (r : List Char) :
    TextsAlike (b ++ '\x22' :: r) (b' ++ '\x22' :: r) := by
  have free : ∀ {b}, KernelFree b → KernelFree (b ++ ['\x22']) := fun hb =>
    kernelFree_quote.2 ⟨hb, kernelFree_nil⟩
  have line : ∀ {b : List Char}, '\n' ∉ b → '\n' ∉ b ++ ['\x22'] := fun hn hm =>
    (List.mem_append.1 hm).elim hn (by decide)
  have hl := alike_of_kernelFree (m := lineEnd r) (free hb) (free hb') apart_quote apart_quote
  have := TextsAlike.seam (a := []) (line hn) (line hn') hl (.refl r)
  simpa only [List.nil_append, List.append_assoc, List.cons_append] using this

theorem lineFeed_notMem_literal {b : List Char} (h : '\n' ∉ b) : '\n' ∉ '\x22' :: (b ++ ['\x22']) := by
  simp only [List.mem_cons, List.mem_append, not_or]
  exact ⟨by decide, h, by decide, List.not_mem_nil⟩

theorem textsAlike_literal {b b' : List Char} (hb : KernelFree b) (hb' : KernelFree b')
    (hn : '\n' ∉ b) (hn' : '\n' ∉ b') (a r : List Char) :
    TextsAlike (a ++ '\x22' :: (b ++ '\x22' :: r)) (a ++ '\x22' :: (b' ++ '\x22' :: r)) := by
  have hl := alike_literal hb hb' (lineStart a) (lineEnd r)
  have := TextsAlike.seam (a := a) (lineFeed_notMem_literal hn)
    (lineFeed_notMem_literal hn') (by simpa using hl) (.refl r)
  simpa only [List.append_assoc, List.cons_append, List.nil_append] using this

theorem textsAlike_collapse {y h t t' s s' : List Char} (hh : IsOpenHeader h)
    (hy : ∀ c ∈ y.getLast?, isIdentChar c = false) (hb : countBreaks t' = countBreaks t)
    (hs : TextsAlike s s') :
    TextsAlike (y ++ (collapse (h ++ '\x22' :: t) ++ s))
      (y ++ (collapse (h ++ '\x22' :: t') ++ s')) := by
  obtain ⟨w, x, r, r', n, hw, hx, hu, hr, hr', e, e'⟩ := collapse_quote hh hb
  have hk : ¬ KernelFree (lineStart (y ++ (w ++ x))) := by
    rw [lineStart_append y hu]
    exact not_kernelFree_of_word (fun c hc => hy c (getLast_lineStart hc)) hw hx
  have line : ∀ {r : List Char}, '\n' ∉ r → '\n' ∉ '\x22' :: r := fun hr hm =>
    (List.mem_cons.1 hm).elim (by decide) hr
  have hl : Alike (lineStart (y ++ (w ++ x)) ++ ('\x22' :: r ++ lineEnd (List.replicate n '\n' ++ s)))
      (lineStart (y ++ (w ++ x)) ++ ('\x22' :: r' ++ lineEnd (List.replicate n '\n' ++ s'))) :=
    alike_of_unknown hk (by decide) (by decide) (by decide)
  have := TextsAlike.seam (line hr) (line hr') hl (hs.lineFeeds n)
  rw [e, e']
  simpa only [List.append_assoc, List.cons_append] using this

end Quotes

end KernelWrap.Declaration

namespace KernelWrap.Source
open Text Declaration

section Normalizing

theorem normalizeFrom_closing {b : List Char} (hb : KernelFree b) (r : List Char) :
    normalizeFrom false (b ++ '\x22' :: r) = b ++ '\x22' :: normalizeFrom false r := by
  have hq : ∀ c ∈ (b ++ ['\x22']).getLast?, isIdentChar c = false :=
    forall_getLast?_concat (by decide) b
  have hw : endsInWord (b ++ ['\x22']) = false := (endsInWord_concat b '\x22').trans (by decide)
  have := normalizeFrom_append (r := r) (kernelFree_quote.2 ⟨hb, kernelFree_nil⟩) (.inr hq)
  rw [hw] at this
  simpa only [List.append_assoc, List.cons_append, List.nil_append] using this

theorem normalizeFrom_of_notMem {s : List Char} (h : ')' ∉ s) (w : Bool) : normalizeFrom w s = s := by
  induction s generalizing w with
  | nil => exact normalizeFrom_nil w
  | cons c s ih =>
    rw [normalizeFrom_plain, ih fun hm => h (List.mem_cons_of_mem c hm)]
    intro _
    rw [Option.eq_none_iff_forall_ne_some]
    intro r hr
    obtain ⟨v, d, x, -, -, e⟩ := header_eq hr
    exact h (by rw [e]; simp)

theorem IsOpenHeader.normalizeFrom {h z : List Char} (hh : IsOpenHeader h) (hz : ')' ∉ z)
    (r : List Char) : Source.normalizeFrom false (h ++ (z ++ ')' :: r)) =
      collapse (h ++ (z ++ [')'])) ++ Source.normalizeFrom false r := by
  have ha := IsHeader.afterHeader? ⟨_, hh.append hz, rfl⟩ r
  have := normalizeFrom_header ha
  simpa only [List.append_assoc, List.cons_append, List.nil_append] using this

section OpenHeader

variable {b b' h r y : List Char} (hh : IsOpenHeader h)
include hh

theorem IsOpenHeader.normalizeFrom_quote {u : List Char} (hu : ')' ∉ u) (r : List Char) :
    Source.normalizeFrom false (h ++ '\x22' :: (u ++ ')' :: r)) =
      collapse (h ++ '\x22' :: (u ++ [')'])) ++ Source.normalizeFrom false r := by
  have hq : ')' ∉ '\x22' :: u := fun hm => (List.mem_cons.1 hm).elim (by decide) hu
  have := hh.normalizeFrom hq r
  simpa only [List.append_assoc, List.cons_append] using this

variable (hn : '\n' ∉ b) (hn' : '\n' ∉ b')
include hn hn'

theorem textsAlike_ended_inside (hb : KernelFree b) (hb' : KernelFree b')
    (hy : ∀ c ∈ y.getLast?, isIdentChar c = false) (hm : ')' ∈ b) (hm' : ')' ∈ b') :
    TextsAlike (y ++ normalizeFrom false (h ++ '\x22' :: (b ++ '\x22' :: r)))
      (y ++ normalizeFrom false (h ++ '\x22' :: (b' ++ '\x22' :: r))) := by
  obtain ⟨b₁, b₂, rfl, h₁⟩ := List.eq_append_cons_of_mem hm
  obtain ⟨b₁', b₂', rfl, h₁'⟩ := List.eq_append_cons_of_mem hm'
  simp only [List.mem_append, List.mem_cons, not_or] at hn hn'
  have behind : ∀ {u v : List Char}, KernelFree (u ++ ')' :: v) → KernelFree v := fun h =>
    ((kernelFree_symbol (by decide) (by decide) (by decide)).1 h).2
  have ends : ∀ {u v : List Char}, ')' ∉ u → KernelFree v →
      normalizeFrom false (h ++ '\x22' :: (u ++ ')' :: v ++ '\x22' :: r)) =
        collapse (h ++ '\x22' :: (u ++ [')'])) ++ (v ++ '\x22' :: normalizeFrom false r) := by
    intro u v hu hv
    have := hh.normalizeFrom_quote hu (v ++ '\x22' :: r)
    rw [normalizeFrom_closing hv] at this
    simpa only [List.append_assoc, List.cons_append] using this
  have hcount : countBreaks (b₁' ++ [')']) = countBreaks (b₁ ++ [')']) := by
    rw [countBreaks_append, countBreaks_append, countBreaks_of_notMem hn.1,
      countBreaks_of_notMem hn'.1]
  rw [ends h₁ (behind hb), ends h₁' (behind hb')]
  exact textsAlike_collapse hh hy hcount
    (textsAlike_closing (behind hb) (behind hb') hn.2.2 hn'.2.2 _)

theorem textsAlike_ended_behind (hy : ∀ c ∈ y.getLast?, isIdentChar c = false) (hm : ')' ∉ b)
    (hm' : ')' ∉ b') (hr : ')' ∈ r) :
    TextsAlike (y ++ normalizeFrom false (h ++ '\x22' :: (b ++ '\x22' :: r)))
      (y ++ normalizeFrom false (h ++ '\x22' :: (b' ++ '\x22' :: r))) := by
  obtain ⟨r₁, r₂, rfl, h₁⟩ := List.eq_append_cons_of_mem hr
  have ends : ∀ {b : List Char}, ')' ∉ b →
      normalizeFrom false (h ++ '\x22' :: (b ++ '\x22' :: (r₁ ++ ')' :: r₂))) =
        collapse (h ++ '\x22' :: (b ++ '\x22' :: (r₁ ++ [')']))) ++ normalizeFrom false r₂ := by
    intro b hb
    have hu : ')' ∉ b ++ '\x22' :: r₁ := by
      simp only [List.mem_append, List.mem_cons, not_or]
      exact ⟨hb, by decide, h₁⟩
    have := hh.normalizeFrom_quote hu r₂
    simpa only [List.append_assoc, List.cons_append] using this
  have hcount : countBreaks (b' ++ '\x22' :: (r₁ ++ [')'])) =
      countBreaks (b ++ '\x22' :: (r₁ ++ [')'])) := by
    rw [countBreaks_append, countBreaks_append, countBreaks_of_notMem hn,
      countBreaks_of_notMem hn']
  rw [ends hm, ends hm']
  exact textsAlike_collapse hh hy hcount (.refl _)

theorem textsAlike_unended (hb : KernelFree b) (hb' : KernelFree b') (hm : ')' ∉ b)
    (hm' : ')' ∉ b') (hr : ')' ∉ r) :
    TextsAlike (y ++ normalizeFrom false (h ++ '\x22' :: (b ++ '\x22' :: r)))
      (y ++ normalizeFrom false (h ++ '\x22' :: (b' ++ '\x22' :: r))) := by
  have copied : ∀ {b : List Char}, ')' ∉ b →
      normalizeFrom false (h ++ '\x22' :: (b ++ '\x22' :: r)) = h ++ '\x22' :: (b ++ '\x22' :: r) := by
    intro b hb
    refine normalizeFrom_of_notMem ?_ false
    simp only [List.mem_append, List.mem_cons, not_or]
    exact ⟨hh.notMem, by decide, hb, by decide, hr⟩
  rw [copied hm, copied hm', ← List.append_assoc, ← List.append_assoc]
  exact textsAlike_literal hb hb' hn hn' (y ++ h) r

end OpenHeader

theorem normalize_literal {a b b' r : List Char} (hb : KernelFree b) (hb' : KernelFree b')
    (hn : '\n' ∉ b) (hn' : '\n' ∉ b') (hp : EndsInHeader a → (')' ∈ b ↔ ')' ∈ b')) :
    TextsAlike (normalize (a ++ '\x22' :: (b ++ '\x22' :: r)))
      (normalize (a ++ '\x22' :: (b' ++ '\x22' :: r))) := by
  have hreach := @reaches [] [] a fun _ c hc => by cases hc
  change Reaches a fun z => normalize (a ++ '\x22' :: z) at hreach
  cases hreach with
  | outside y hf =>
    rw [hf, hf, normalizeFrom_closing hb, normalizeFrom_closing hb']
    exact textsAlike_literal hb hb' hn hn' y _
  | @inside p h y ha hw hh hy hf =>
    rw [hf, hf]
    have hpar := hp ⟨p, h, ha, hw, hh⟩
    by_cases hm : ')' ∈ b
    · exact textsAlike_ended_inside hh hn hn' hb hb' hy hm (hpar.1 hm)
    have hm' : ')' ∉ b' := fun h => hm (hpar.2 h)
    by_cases hr : ')' ∈ r
    · exact textsAlike_ended_behind hh hn hn' hy hm hm' hr
    · exact textsAlike_unended hh hn hn' hb hb' hm hm' hr

end Normalizing

end KernelWrap.Source

namespace KernelWrap.Analysis
open Source Text Declaration

def stringLiteral (b : List Char) : Segment := .literal ('\x22' :: (b ++ ['\x22']))

theorem keptText_stringLiteral (gs hs : List Segment) (b : List Char) :
    keptText (gs ++ stringLiteral b :: hs) =
      keptText gs ++ '\x22' :: (b ++ '\x22' :: keptText hs) := by
  have hk : (stringLiteral b).kept = '\x22' :: (b ++ ['\x22']) := rfl
  rw [keptText_append, keptText_cons, hk]
  simp only [List.append_assoc, List.cons_append, List.nil_append]

/-- Sources that differ in what a string literal says have the same kernels, and the declarations that
are skipped in them are reported on the same lines with the same messages. The literal says no keyword
and, if it stands in a header, a closing parenthesis in both of the sources or in none. -/
theorem ofText_literal {gs hs : List Segment} {b b' : List Char}
    (hc : Closed [] (gs ++ stringLiteral b :: hs)) (hc' : Closed [] (gs ++ stringLiteral b' :: hs))
    (hn : '\n' ∉ b) (hn' : '\n' ∉ b') (hb : KernelFree b) (hb' : KernelFree b')
    (hp : EndsInHeader (keptText gs) → (')' ∈ b ↔ ')' ∈ b')) :
    (ofText (sourceText (gs ++ stringLiteral b :: hs))).kernels =
        (ofText (sourceText (gs ++ stringLiteral b' :: hs))).kernels ∧
      (ofText (sourceText (gs ++ stringLiteral b :: hs))).skipped.map ParseError.report =
        (ofText (sourceText (gs ++ stringLiteral b' :: hs))).skipped.map ParseError.report := by
  have hmap : LineMap.ofSegments (gs ++ stringLiteral b :: hs) =
      LineMap.ofSegments (gs ++ stringLiteral b' :: hs) :=
    ofSegments_literal gs hs (by decide) (lineFeed_notMem_literal hn) (lineFeed_notMem_literal hn')
  have halike := normalize_literal (r := keptText hs) hb hb' hn hn' hp
  obtain ⟨hk, hs'⟩ := matchLines_alike halike 1
  rw [← keptText_stringLiteral, ← keptText_stringLiteral] at hk hs'
  have report : ∀ (m : LineMap) (es : List ParseError),
      (es.map fun e => { e with line := m.sourceLine e.line }).map ParseError.report =
        (es.map ParseError.report).map fun r => (m.sourceLine r.1, r.2) := by
    intro m es
    rw [List.map_map, List.map_map]
    rfl
  simp only [ofText, stripWithLines, segments_sourceText hc, segments_sourceText hc', hmap, report,
    matchText, hk, hs', and_self]

section Declarations

def withLiteral (a b r : List Char) : List Segment :=
  a.map .plain ++ stringLiteral b :: r.map .plain

theorem isStringBody_of_plain {b : List Char} (h : ∀ c ∈ b, c ≠ '\x22' ∧ c ≠ '\\') :
    IsStringBody b := by
  induction b with
  | nil => exact .nil
  | cons c b ih =>
    obtain ⟨hq, hs⟩ := h c List.mem_cons_self
    exact .char hq hs (ih fun d hd => h d (List.mem_cons_of_mem c hd))

theorem closed_withLiteral {a b r : List Char}
    (h : ∀ c ∈ a ++ (b ++ r), c ≠ '\x22' ∧ c ≠ '\x27' ∧ c ≠ '/' ∧ c ≠ '\\') :
    Closed [] (withLiteral a b r) := by
  have plain : ∀ {s}, s ⊆ a ++ (b ++ r) → ∀ c ∈ s, c ≠ '\x22' ∧ c ≠ '\x27' ∧ c ≠ '/' :=
    fun hs c hc => ⟨(h c (hs hc)).1, (h c (hs hc)).2.1, (h c (hs hc)).2.2.1⟩
  have hb : IsStringBody b := isStringBody_of_plain fun c hc => by
    obtain ⟨hq, -, -, hs⟩ := h c (by simp [hc])
    exact ⟨hq, hs⟩
  exact closed_append.2 ⟨closed_map_plain (plain (by simp)) _, .string hb,
    closed_map_plain (plain (by simp)) _⟩

def headerSegments (b : List Char) : List Segment :=
  withLiteral "kernel void f(\n".toList b " x)\nkernel void g(int y)".toList

theorem ofText_literal_header :
    (ofText (sourceText (headerSegments "a)b".toList))).kernels.map Kernel.line = [3] ∧
      (ofText (sourceText (headerSegments "a)b".toList))).skipped.map ParseError.line = [1] ∧
      (ofText (sourceText (headerSegments "a)b".toList))).kernels =
        (ofText (sourceText (headerSegments "c) (".toList))).kernels ∧
      (ofText (sourceText (headerSegments "a)b".toList))).skipped.map ParseError.report =
        (ofText (sourceText (headerSegments "c) (".toList))).skipped.map ParseError.report := by
  have hb : KernelFree "a)b".toList := by
    show ∀ l ∈ lexemes _, _
    decide +kernel
  have hb' : KernelFree "c) (".toList := by
    show ∀ l ∈ lexemes _, _
    decide +kernel
  have hc : Closed [] (headerSegments "a)b".toList) := closed_withLiteral (by simp)
  have hc' : Closed [] (headerSegments "c) (".toList) := closed_withLiteral (by simp)
  refine ⟨by decide +kernel, by decide +kernel, ?_⟩
  exact ofText_literal hc hc' (by decide) (by decide) hb hb' fun _ => by decide

/-- Literals are read. A declaration in a literal is found. A closing parenthesis in a literal ends the
header that the literal stands in, and the line below is then read on its own. And with an apostrophe at
its start a literal behind a stray apostrophe is none: the two apostrophes and the quote between them are
a character, and its other quote begins a literal that may reach into a comment. -/
theorem literals_are_read :
    (∃ a b b' r, Closed [] (withLiteral a b r) ∧ Closed [] (withLiteral a b' r) ∧
      '\n' ∉ b ∧ '\n' ∉ b' ∧ (')' ∈ b ↔ ')' ∈ b') ∧
      (ofText (sourceText (withLiteral a b r))).kernels ≠
        (ofText (sourceText (withLiteral a b' r))).kernels) ∧
    (∃ a b b' r, Closed [] (withLiteral a b r) ∧ Closed [] (withLiteral a b' r) ∧
      '\n' ∉ b ∧ '\n' ∉ b' ∧ KernelFree b ∧ KernelFree b' ∧
      (ofText (sourceText (withLiteral a b r))).kernels ≠
        (ofText (sourceText (withLiteral a b' r))).kernels) ∧
    ∃ gs hs b b', Closed [] (gs ++ stringLiteral b :: hs) ∧ IsStringBody b' ∧
      '\n' ∉ b ∧ '\n' ∉ b' ∧ KernelFree b ∧ KernelFree b' ∧ (')' ∈ b ↔ ')' ∈ b') ∧
      (ofText (sourceText (gs ++ stringLiteral b :: hs))).kernels ≠
        (ofText (sourceText (gs ++ stringLiteral b' :: hs))).kernels := by
  have free : KernelFree ['a'] ∧ KernelFree [')'] ∧ KernelFree ['\x27'] := by
    refine ⟨?_, ?_, ?_⟩ <;> (show ∀ l ∈ lexemes _, _; decide +kernel)
  refine ⟨⟨"const char* s = ".toList, "a()".toList, "kernel void x(int a)".toList, ";".toList, ?_⟩,
    ⟨"kernel void f(".toList, ['a'], [')'], "\nkernel void g(int x)".toList, ?_⟩,
    [.plain '\x27'], [.block "\x22kernel void f(int a)".toList], ['a'], ['\x27'], ?_⟩
  · have hc := closed_withLiteral (a := "const char* s = ".toList) (b := "a()".toList)
      (r := ";".toList) (by simp)
    have hc' := closed_withLiteral (a := "const char* s = ".toList)
      (b := "kernel void x(int a)".toList) (r := ";".toList) (by simp)
    exact ⟨hc, hc', by decide +kernel⟩
  · have hc := closed_withLiteral (a := "kernel void f(".toList) (b := ['a'])
      (r := "\nkernel void g(int x)".toList) (by simp)
    have hc' := closed_withLiteral (a := "kernel void f(".toList) (b := [')'])
      (r := "\nkernel void g(int x)".toList) (by simp)
    exact ⟨hc, hc', by decide, by decide, free.1, free.2.1, by decide +kernel⟩
  · have ha : ¬ Opens '\x27' (sourceText [stringLiteral ['a'],
        .block "\x22kernel void f(int a)".toList] ++ []) := by
      rintro (h | ⟨l, hl, z, hz⟩ | ⟨h, -⟩)
      · cases h
      · cases hl <;> cases hz
      · cases h
    have hb : ¬ ['*', '/'] <:+: "\x22kernel void f(int a)".toList := by decide +kernel
    have hl : ∀ c, c ≠ '\x22' → c ≠ '\\' → IsStringBody [c] := fun c hq hs => .char hq hs .nil
    exact ⟨⟨ha, .string (hl 'a' (by decide) (by decide)), hb, trivial⟩,
      hl '\x27' (by decide) (by decide), by decide, by decide, free.1, free.2.2, by decide,
      by decide +kernel⟩

end Declarations

end KernelWrap.Analysis
