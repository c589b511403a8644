import KernelWrap.Analysis
import KernelWrap.Proofs.Describes
import KernelWrap.Proofs.Written

/-! Kernel declarations written into a source come back as descriptors. A source is a preamble and
passages, each a declaration in any layout with the text behind it. Stripping, normalizing, matching
and describing are followed through the passages one after the other: the text between declarations
is left alone by all of them, and every declaration ends up on a line of its own. -/

namespace KernelWrap
open Text Source Declaration

/-- A declaration in a source, its spelling and layout, and the text behind it. -/
structure Passage where
  kernel : DeclaredKernel
  /-- An empty list of parameters is written as `void`. -/
  void : Bool
  words : List (List Char)
  layout : List Segment
  behind : List Segment

structure Passage.Legal (p : Passage) : Prop where
  parameters : ∀ q ∈ p.kernel.parameters, q.Legal
  spelled : List.Forall₂ Symbol.Spelled (p.kernel.symbols p.void) p.words
  laidOut : LaidOut p.words p.layout
  kernelFree : KernelFree (keptText p.behind)

def passageSegments : List Passage → List Segment
  | [] => []
  | p :: ps => p.layout ++ (p.behind ++ passageSegments ps)

def LineIsFree (s : List Char) : Prop :=
  ∃ a b, s = a ++ b ∧ (a = [] ∨ a.getLast? = some '\n') ∧ ∀ c ∈ b, isBlank c = true ∧ c ≠ '\n'

/-- The text behind a declaration is closed, and the next declaration is the first thing on its
line. -/
def WellPlaced : List Passage → Prop
  | [] => True
  | p :: ps =>
    p.Legal ∧ Closed (sourceText (passageSegments ps)) p.behind ∧
      (ps ≠ [] → '\n' ∈ keptText p.behind ∧ LineIsFree (keptText p.behind)) ∧ WellPlaced ps

def passageLines : List Passage → List Char
  | [] => []
  | p :: ps => collapse (keptText p.layout) ++ (keptText p.behind ++ passageLines ps)

section Passages

theorem Passage.Legal.isWord {p : Passage} (h : p.Legal) {w : List Char} (hw : w ∈ p.words) :
    IsWord w := by
  obtain ⟨a, -, hs⟩ := forall₂_mem_right h.spelled hw
  exact hs.isWord

theorem closed_passageSegments {ps : List Passage} (h : WellPlaced ps) :
    Closed [] (passageSegments ps) := by
  induction ps with
  | nil => trivial
  | cons p ps ih =>
    obtain ⟨hp, hc, -, hps⟩ := h
    rw [passageSegments, closed_append, closed_append]
    exact ⟨hp.laidOut.closed (fun _ => hp.isWord) _, by rwa [List.append_nil], ih hps⟩

end Passages

section Normalizing

theorem LineIsFree.isBlank_getLast {s : List Char} (h : LineIsFree s) :
    ∀ c ∈ s.getLast?, isBlank c = true := by
  obtain ⟨a, b, rfl, ha, hb⟩ := h
  intro c hc
  rcases List.eq_nil_or_concat b with rfl | ⟨b, d, rfl⟩
  · rw [List.append_nil] at hc
    rcases ha with rfl | ha
    · cases hc
    · rw [ha] at hc
      cases hc
      decide
  · rw [List.concat_eq_append] at hb hc
    rw [← List.append_assoc, List.getLast?_concat] at hc
    cases hc
    exact (hb c (by simp)).1

theorem Passage.Legal.afterHeader? {p : Passage} (h : p.Legal) (r : List Char) :
    Source.afterHeader? (keptText p.layout ++ r) = some r := by
  obtain ⟨k, n, body, hw, hk, hn, hb⟩ := exists_words h.spelled
  exact afterHeader?_of_spaced hk hn hb (hw ▸ h.laidOut.spaced) r

theorem normalizeFrom_passages {ps : List Passage} (h : WellPlaced ps) :
    normalizeFrom false (keptText (passageSegments ps)) = passageLines ps := by
  induction ps with
  | nil => exact normalizeFrom_nil false
  | cons p ps ih =>
    obtain ⟨hp, -, hl, hps⟩ := h
    have hr : keptText (passageSegments ps) = [] ∨
        ∀ c ∈ (keptText p.behind).getLast?, isIdentChar c = false := by
      cases ps with
      | nil => exact .inl rfl
      | cons q qs =>
        exact .inr fun c hc =>
          isIdentChar_of_isBlank ((hl (List.cons_ne_nil q qs)).2.isBlank_getLast c hc)
    rw [passageSegments, keptText_append, keptText_append, passageLines,
      normalizeFrom_header (hp.afterHeader? _), normalizeFrom_append hp.kernelFree hr]
    cases ps with
    | nil => rw [← ih hps, passageSegments, keptText_nil, normalizeFrom_nil, normalizeFrom_nil]
    | cons q qs =>
      rw [endsInWord_of_blank (hl (List.cons_ne_nil q qs)).2.isBlank_getLast, ih hps]

end Normalizing

section Matching

theorem readTokens_declared {d : DeclaredKernel} {void : Bool} {us ts vs : List Token}
    (hu : ∀ t ∈ us, t.kind ≠ .kernel) (ht : Reads (d.symbols void) ts)
    (hd : ∀ p ∈ d.parameters, p.Legal) (line : Nat) :
    readTokens line (us ++ (ts ++ vs)) = .ok (some (d.signature line)) := by
  have hr := readDeclaration_of_reads ht hd vs
  obtain ⟨t, ts, rfl, hk, -⟩ := reads_cons ht
  have hf : fromKernel (us ++ (t :: ts ++ vs)) = t :: (ts ++ vs) := by
    rw [fromKernel, List.dropWhile_append_of_pos fun u hm => bne_iff_ne.2 (hu u hm)]
    exact List.dropWhile_cons_of_neg (by simp [show t.kind = .kernel from hk])
  rw [List.cons_append] at hr
  simp only [readTokens, hf, hr]

theorem readLine_declared {d : DeclaredKernel} {void : Bool} {v h a : List Char}
    (hv : KernelFree v) (hm : List.Forall₂ Symbol.Matches (d.symbols void) (lexemes h))
    (hd : ∀ p ∈ d.parameters, p.Legal) (hvh : Apart v (h ++ a)) (hha : Apart h a) (line : Nat) :
    readLine (v ++ (h ++ a)) line = .ok (some (d.signature line)) := by
  have hr : Reads (d.symbols void) (tokenizeFrom (0 + byteSize v) h) := by
    rw [Reads, ← List.forall₂_map_right_iff, map_lexeme_tokenizeFrom _ 0]
    exact hm
  rw [readLine, tokenize, tokenizeFrom_append hvh, tokenizeFrom_append hha]
  exact readTokens_declared (fun t ht => hv t.lexeme (List.mem_map_of_mem ht)) hr hd line

theorem matchFrom_declared {d : DeclaredKernel} {void : Bool} {v h z : List Char}
    (hv : KernelFree v) (hvn : '\n' ∉ v) (hm : List.Forall₂ Symbol.Matches (d.symbols void) (lexemes h))
    (hhn : '\n' ∉ h) (hd : ∀ p ∈ d.parameters, p.Legal) (hz : KernelFree z)
    (hvl : ∀ c ∈ v.getLast?, isIdentChar c = false) (hhz : Apart h z) (line : Nat) :
    matchFrom line (v ++ (h ++ z)) = ⟨[d.signature line], []⟩ := by
  -- First without a line feed behind the declaration; what is below the line has no keyword.
  have hline : ∀ a, '\n' ∉ a → Apart h a →
      matchFrom line (v ++ (h ++ a)) = ⟨[d.signature line], []⟩ := by
    intro a han hha
    have hn : '\n' ∉ v ++ (h ++ a) := by
      simp only [List.mem_append, not_or]
      exact ⟨hvn, hhn, han⟩
    rw [matchFrom, splitLines_line hn, matchLines, readLine_declared hv hm hd (apart_of_last hvl) hha]
    rfl
  by_cases hzn : '\n' ∈ z
  · obtain ⟨a, b, rfl, han⟩ := List.eq_append_cons_of_mem hzn
    have hb := (kernelFree_lineFeed.1 hz).2
    rw [← List.append_assoc, ← List.append_assoc, matchFrom_lineFeed, List.append_assoc,
      hline a han (hhz.of_prefix (List.prefix_append a _)), matchFrom_of_kernelFree hb]
    rfl
  · exact hline z hzn hhz

theorem kernelFree_breaks {z : List Char} (hz : KernelFree z) (n : Nat) :
    KernelFree (List.replicate n '\n' ++ z) := by
  induction n with
  | zero => exact hz
  | succ n ih =>
    rw [List.replicate_succ, List.cons_append, KernelFree, lexemes_gap (by decide)]
    exact ih

theorem kernelFree_of_blank {v : List Char} (h : ∀ c ∈ v, isBlank c = true) : KernelFree v := by
  induction v with
  | nil => simp [KernelFree]
  | cons c v ih =>
    have hv := ih fun d hd => h d (List.mem_cons_of_mem c hd)
    have hb := h c List.mem_cons_self
    cases hg : isGap c with
    | true => rwa [KernelFree, lexemes_gap hg]
    | false =>
      rw [KernelFree, lexemes_symbol hg (isIdentChar_of_isBlank hb)]
      refine List.forall_mem_cons.2 ⟨?_, hv⟩
      simp only [symbolKind]
      repeat' split
      all_goals exact TokenKind.noConfusion

end Matching

section Passages

theorem LineIsFree.split {s : List Char} (h : LineIsFree s) :
    ∃ v, (∀ c ∈ v, isBlank c = true ∧ c ≠ '\n') ∧ (s = v ∨ ∃ a, s = a ++ '\n' :: v) := by
  obtain ⟨a, v, rfl, ha, hv⟩ := h
  refine ⟨v, hv, ?_⟩
  rcases ha with rfl | ha
  · exact .inl (List.nil_append v)
  · obtain ⟨a, rfl⟩ := List.getLast?_eq_some_iff.1 ha
    exact .inr ⟨a, by rw [List.append_assoc, List.singleton_append]⟩

theorem Passage.Legal.collapse_eq {p : Passage} (h : p.Legal) :
    ∃ l k, collapse (keptText p.layout) = l ++ List.replicate k '\n' ∧ '\n' ∉ l ∧
      List.Forall₂ Symbol.Matches (p.kernel.symbols p.void) (lexemes l) ∧
      ∀ z, Apart l (List.replicate k '\n' ++ z) := by
  have hs := h.laidOut.spaced
  obtain ⟨l, hl, hn, hx, h0⟩ := Source.collapse_eq _ (hs.gapsOnly fun _ => h.isWord)
  refine ⟨l, _, hl, hn, hx ▸ matches_of_spaced hs h.spelled, fun z => ?_⟩
  cases hk : countBreaks (keptText p.layout) with
  | succ k =>
    rw [List.replicate_succ, List.cons_append]
    exact apart_lineFeed _ _
  | zero =>
    -- A declaration ends in a parenthesis, which no word runs together with.
    obtain ⟨w, n, body, hw, -⟩ := exists_words h.spelled
    have hc : Spaced ((w :: "void".toList :: n :: ['('] :: body) ++ [[')']]) (keptText p.layout) := by
      rw [hw] at hs
      exact hs
    obtain ⟨t, ht⟩ := hc.exists_concat
    rw [h0 hk, ht]
    refine apart_of_last fun c h => ?_
    rw [List.getLast?_concat] at h
    cases h
    decide

def Passage.Signed (p : Passage) (k : KernelSignature) : Prop :=
  p.Legal ∧ ∃ line, k = p.kernel.signature line

theorem matchFrom_passages {ps : List Passage} (h : WellPlaced ps) {v : List Char}
    (hv : ∀ c ∈ v, isBlank c = true ∧ c ≠ '\n') (line : Nat) :
    ∃ ks, matchFrom line (v ++ passageLines ps) = ⟨ks, []⟩ ∧
      List.Forall₂ Passage.Signed ps ks := by
  induction ps generalizing v line with
  | nil =>
    refine ⟨[], ?_, .nil⟩
    rw [passageLines, List.append_nil]
    exact matchFrom_of_kernelFree (kernelFree_of_blank fun c hc => (hv c hc).1) line
  | cons p ps ih =>
    obtain ⟨hp, -, hl, hps⟩ := h
    obtain ⟨l, k, hk, hn, hm, ha⟩ := hp.collapse_eq
    have found : ∀ z, KernelFree z → matchFrom line (v ++ (l ++ (List.replicate k '\n' ++ z))) =
        ⟨[p.kernel.signature line], []⟩ := fun z hz =>
      matchFrom_declared (kernelFree_of_blank fun c hc => (hv c hc).1) (fun h => (hv _ h).2 rfl) hm
        hn hp.parameters (kernelFree_breaks hz k)
        (fun c hc => isIdentChar_of_isBlank (hv c (List.mem_of_mem_getLast? hc)).1) (ha z) line
    rw [passageLines, hk, List.append_assoc]
    -- The line feed before the next declaration lies in the text behind this one: what is above it
    -- belongs to this declaration, and the blank rest is where the induction goes on.
    cases ps with
    | nil =>
      rw [passageLines, List.append_nil]
      exact ⟨_, found _ hp.kernelFree, .cons ⟨hp, line, rfl⟩ .nil⟩
    | cons q qs =>
      obtain ⟨hmem, hfree⟩ := hl (List.cons_ne_nil q qs)
      obtain ⟨b, hb, e | ⟨a, e⟩⟩ := hfree.split
      · exact absurd rfl (hb _ (e ▸ hmem)).2
      · have hfa : KernelFree a := (kernelFree_lineFeed.1 (e ▸ hp.kernelFree)).1
        obtain ⟨ks, hks, hr⟩ := ih hps hb
          (line + countBreaks (v ++ (l ++ (List.replicate k '\n' ++ a))) + 1)
        refine ⟨_ :: ks, ?_, .cons ⟨hp, line, rfl⟩ hr⟩
        have hs : v ++ (l ++ (List.replicate k '\n' ++ (keptText p.behind ++
            passageLines (q :: qs)))) =
            (v ++ (l ++ (List.replicate k '\n' ++ a))) ++ '\n' :: (b ++ passageLines (q :: qs)) := by
          rw [e]
          simp only [List.append_assoc, List.cons_append]
        rw [hs, matchFrom_lineFeed, found a hfa, hks]
        rfl

theorem matchFrom_above {u : List Char} {ps : List Passage} (hu : KernelFree u)
    (hl : ps ≠ [] → LineIsFree u) (h : WellPlaced ps) (line : Nat) :
    ∃ ks, matchFrom line (u ++ passageLines ps) = ⟨ks, []⟩ ∧
      List.Forall₂ Passage.Signed ps ks := by
  cases ps with
  | nil =>
    refine ⟨[], ?_, .nil⟩
    rw [passageLines, List.append_nil]
    exact matchFrom_of_kernelFree hu line
  | cons p ps =>
    obtain ⟨v, hv, rfl | ⟨a, rfl⟩⟩ := (hl (List.cons_ne_nil p ps)).split
    · exact matchFrom_passages h hv line
    · obtain ⟨ks, hk, hr⟩ := matchFrom_passages h hv (line + countBreaks a + 1)
      refine ⟨ks, ?_, hr⟩
      rw [List.append_assoc, List.cons_append, matchFrom_lineFeed, hk,
        matchFrom_of_kernelFree (kernelFree_lineFeed.1 hu).1]
      rfl

theorem normalize_passages {pre : List Segment} {ps : List Passage} (hk : KernelFree (keptText pre))
    (hl : ps ≠ [] → LineIsFree (keptText pre)) (h : WellPlaced ps) :
    normalize (keptText pre ++ keptText (passageSegments ps)) =
      keptText pre ++ passageLines ps := by
  cases ps with
  | nil =>
    rw [Source.normalize, passageSegments, keptText_nil, normalizeFrom_append hk (.inl rfl),
      normalizeFrom_nil, passageLines]
  | cons p ps =>
    have hb := (hl (List.cons_ne_nil p ps)).isBlank_getLast
    rw [Source.normalize,
      normalizeFrom_append hk (.inr fun c hc => isIdentChar_of_isBlank (hb c hc)),
      endsInWord_of_blank hb,
      normalizeFrom_passages h]

/-- Analyzing a source gives the declarations of its passages back, one descriptor for each and in
their order, and skips nothing. -/
theorem ofText_passages {pre : List Segment} {ps : List Passage}
    (hc : Closed (sourceText (passageSegments ps)) pre) (hk : KernelFree (keptText pre))
    (hl : ps ≠ [] → LineIsFree (keptText pre)) (h : WellPlaced ps) :
    (Analysis.ofText (sourceText pre ++ sourceText (passageSegments ps))).skipped = [] ∧
      List.Forall₂ (fun p k => k.Describes p.kernel) ps
        (Analysis.ofText (sourceText pre ++ sourceText (passageSegments ps))).kernels := by
  have hs : segments (sourceText pre ++ sourceText (passageSegments ps)) =
      pre ++ passageSegments ps := by
    rw [segments_append hc, segments_sourceText (closed_passageSegments h)]
  obtain ⟨ks, hm, hr⟩ := matchFrom_above hk hl h 1
  have hf : matchText (normalize (keptText (pre ++ passageSegments ps))) = ⟨ks, []⟩ := by
    rw [keptText_append, normalize_passages hk hl h]
    exact hm
  simp only [Analysis.ofText, stripWithLines, hs, hf, List.map_nil, true_and]
  rw [List.forall₂_map_right_iff]
  refine hr.imp fun p k hpk => ?_
  obtain ⟨hp, line, rfl⟩ := hpk
  exact Kernel.describes_ofSignature hp.parameters _

def fillPassage : Passage where
  kernel := ⟨"fill".toList,
    [⟨[.space .globalMem], .named "float4".toList, [], some [], "x".toList⟩]⟩
  void := false
  words := ["__kernel".toList, "void".toList, "fill".toList, ['('], "global".toList,
    "float4".toList, ['*'], "x".toList, [')']]
  layout := "__kernel".toList.map .plain ++ ([.plain ' ', .block "one".toList] ++
    ("void".toList.map .plain ++ ([.plain '\n'] ++ ("fill".toList.map .plain ++ ([] ++
    (['('].map .plain ++ ([] ++ ("global".toList.map .plain ++ ([.line "kernel".toList true] ++
    ("float4".toList.map .plain ++ ([] ++ (['*'].map .plain ++ ([] ++
    ("x".toList.map .plain ++ ([] ++ [')'].map .plain)))))))))))))))
  behind := "{}\n\t".toList.map .plain

def donePassage : Passage where
  kernel := ⟨"done".toList, []⟩
  void := true
  words := ["kernel".toList, "void".toList, "done".toList, ['('], "void".toList, [')']]
  layout := "kernel".toList.map .plain ++ ([.plain ' '] ++ ("void".toList.map .plain ++
    ([.plain ' '] ++ ("done".toList.map .plain ++ ([] ++ (['('].map .plain ++ ([] ++
    ("void".toList.map .plain ++ ([] ++ [')'].map .plain)))))))))
  behind := []

theorem legal_fillPassage : fillPassage.Legal where
  parameters := by
    intro q hq
    rw [List.mem_singleton.1 hq]
    refine ⟨?_, by decide⟩
    rintro w ⟨⟩
  spelled := .cons (.keyword (by decide)) <| .cons (.keyword (by decide)) <|
    .cons (.word (by decide) (by decide)) <| .cons (.mark (by decide)) <|
    .cons (.keyword (by decide)) <| .cons (.word (by decide) (by decide)) <|
    .cons (.mark (by decide)) <| .cons (.word (by decide) (by decide)) <|
    .cons (.mark (by decide)) .nil
  laidOut := by
    repeat refine .next (by decide) (by decide) ?_
    exact .last _
  kernelFree := by
    show ∀ l ∈ lexemes _, _
    decide +kernel

theorem legal_donePassage : donePassage.Legal where
  parameters := fun _ hq => absurd hq List.not_mem_nil
  spelled := .cons (.keyword (by decide)) <| .cons (.keyword (by decide)) <|
    .cons (.word (by decide) (by decide)) <| .cons (.mark (by decide)) <|
    .cons (.keyword (by decide)) <| .cons (.mark (by decide)) .nil
  laidOut := by
    repeat refine .next (by decide) (by decide) ?_
    exact .last _
  kernelFree := by
    show ∀ l ∈ lexemes _, _
    decide +kernel

theorem wellPlaced_fill_done : WellPlaced [fillPassage, donePassage] := by
  refine ⟨legal_fillPassage, closed_map_plain (by simp) _, fun _ => ⟨by decide, ?_⟩,
    legal_donePassage, trivial, fun h => absurd rfl h, trivial⟩
  exact ⟨"\x7b\x7d\n".toList, "\t".toList, by decide, .inr (by decide), by simp [isBlank]⟩

theorem ofText_fill_done :
    (Analysis.ofText (sourceText [.line " kernels".toList true] ++
      sourceText (passageSegments [fillPassage, donePassage]))).skipped = [] ∧
    List.Forall₂ (fun p k => k.Describes p.kernel) [fillPassage, donePassage]
      (Analysis.ofText (sourceText [.line " kernels".toList true] ++
        sourceText (passageSegments [fillPassage, donePassage]))).kernels := by
  refine ofText_passages ⟨⟨by decide, fun h => Bool.noConfusion h⟩, trivial⟩ ?_ (fun _ => ?_)
    wellPlaced_fill_done
  · show ∀ l ∈ lexemes _, _
    decide +kernel
  · exact ⟨['\n'], [], by decide, .inr (by decide), List.forall_mem_nil _⟩

end Passages

end KernelWrap
