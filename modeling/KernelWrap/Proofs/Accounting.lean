import KernelWrap.Proofs.Reporting
import Mathlib.Data.List.Dedup

/-! Every header is accounted for. The headers of a text are found in one pass, from left to right
and without overlap. Putting them on one line each moves line feeds, but only to the ends of headers,
so each header begins on the line that it began on, with its keyword; and a line with a keyword has
an entry, a kernel or a declaration that is skipped. It has only one: headers that begin on one line
share it. -/

namespace KernelWrap.Source
open Text Declaration

/-- A header of a text and what stands before it. -/
structure Occurrence where
  before : List Char
  header : List Char

def Occurrence.line (o : Occurrence) : Nat := countBreaks o.before + 1

/-- One pass through a text, of which `before` lies behind. A hit takes a whole header; a character is
passed where a word goes on or no header begins. -/
inductive Scan : List Char → List Char → List Occurrence → Prop
  | nil (before : List Char) : Scan before [] []
  | skip {before s : List Char} {c : Char} {os : List Occurrence} :
      (endsInWord before = false → ∀ h, IsHeader h → ¬ h <+: c :: s) →
      Scan (before ++ [c]) s os → Scan before (c :: s) os
  | hit {before h s : List Char} {os : List Occurrence} : endsInWord before = false → IsHeader h →
      Scan (before ++ h) s os → Scan before (h ++ s) (⟨before, h⟩ :: os)

namespace Scan

theorem skips {before z s : List Char} {os : List Occurrence} (hz : ∀ c ∈ z, c ≠ 'k' ∧ c ≠ '_')
    (h : Scan (before ++ z) s os) : Scan before (z ++ s) os := by
  induction z generalizing before with
  | nil => rwa [List.append_nil] at h
  | cons c z ih =>
    obtain ⟨hk, hu⟩ := hz c List.mem_cons_self
    refine .skip (fun _ g hg hp => ?_) (ih (fun d hd => hz d (List.mem_cons_of_mem c hd)) ?_)
    · obtain ⟨r, hr⟩ := hp
      obtain ⟨w, d, t, hw, -, e⟩ := kernelWord_of_afterHeader? (hg.afterHeader? r)
      rw [hr] at e
      rcases hw with rfl | rfl
      · exact hk (List.cons.inj e).1
      · exact hu (List.cons.inj e).1
    · rwa [List.append_assoc]

end Scan

theorem exists_scan (before s : List Char) : ∃ os, Scan before s os := by
  -- The passes of the scan are those of normalizing.
  generalize hw : endsInWord before = w
  induction w, s using normalize_induction generalizing before with
  | nil w => exact ⟨[], .nil before⟩
  | plain w c s hc ih =>
    obtain ⟨os, ho⟩ := ih (before ++ [c]) (endsInWord_concat before c)
    refine ⟨os, .skip (fun hb h hh hp => ?_) ho⟩
    obtain ⟨r, hr⟩ := hp
    have hn := hc (hw.symm.trans hb)
    rw [← hr, hh.afterHeader? r] at hn
    cases hn
  | header h r ha ih =>
    obtain ⟨g, hg, e⟩ := afterHeader?_eq_some_iff.1 ha
    obtain rfl := List.append_cancel_right e
    obtain ⟨os, ho⟩ := ih (before ++ h) (hg.endsInWord before)
    exact ⟨⟨before, h⟩ :: os, .hit hw hg ho⟩

section Writing

/-- Where a header is in the text that normalizing writes: it is collapsed there, it begins on the
same line, and no word runs into its keyword. -/
def Occurrence.WrittenIn (o : Occurrence) (t : List Char) : Prop :=
  ∃ a r, t = a ++ (collapse o.header ++ r) ∧ countBreaks a = countBreaks o.before ∧
    ∀ c ∈ a.getLast?, isIdentChar c = false

theorem Scan.writtenIn {before s done : List Char} {os : List Occurrence} (h : Scan before s os)
    (hb : countBreaks done = countBreaks before)
    (hl : endsInWord before = false → ∀ c ∈ done.getLast?, isIdentChar c = false) :
    ∀ o ∈ os, IsHeader o.header ∧ o.WrittenIn (done ++ normalizeFrom (endsInWord before) s) := by
  induction h generalizing done with
  | nil => exact fun o ho => absurd ho List.not_mem_nil
  | @skip before s c os hc _ ih =>
    have hn : endsInWord before = false → afterHeader? (c :: s) = none := by
      intro hw
      rw [Option.eq_none_iff_forall_ne_some]
      intro r hr
      obtain ⟨g, hg, e⟩ := afterHeader?_eq_some_iff.1 hr
      exact hc hw g hg ⟨r, e.symm⟩
    have hb' : countBreaks (done ++ [c]) = countBreaks (before ++ [c]) := by
      rw [countBreaks_append, countBreaks_append, hb]
    have hl' : endsInWord (before ++ [c]) = false →
        ∀ d ∈ (done ++ [c]).getLast?, isIdentChar d = false := by
      intro hw
      rw [endsInWord_concat] at hw
      exact forall_getLast?_concat (isIdentChar_of_not_isWordChar hw) done
    have := ih hb' hl'
    rwa [endsInWord_concat, List.append_assoc, List.singleton_append, ← normalizeFrom_plain hn] at this
  | @hit before h s os hw hh _ ih =>
    have ha := hh.afterHeader? s
    have hb' : countBreaks (done ++ collapse h) = countBreaks (before ++ h) := by
      rw [countBreaks_append, countBreaks_append, hb, countBreaks_collapse]
    have later := ih hb' fun _ => forall_getLast?_collapse ha done
    rw [hh.endsInWord before, List.append_assoc, ← normalizeFrom_header ha] at later
    rw [hw]
    refine List.forall_mem_cons.2 ⟨⟨hh, done, normalizeFrom false s, ?_, hb, hl hw⟩, later⟩
    rw [normalizeFrom_header ha]

theorem Occurrence.WrittenIn.exists_line {o : Occurrence} {t : List Char} (h : o.WrittenIn t)
    (hh : IsHeader o.header) :
    ∃ l, (splitLines t)[countBreaks o.before]? = some l ∧ ¬ KernelFree l := by
  obtain ⟨a, r, rfl, ha, hlast⟩ := h
  obtain ⟨w, x, d, y, hw, -, hd, hy, -⟩ := collapse_header (hh.afterHeader? [])
  refine ⟨lineStart a ++ lineEnd (collapse o.header ++ r), ha ▸ getElem?_splitLines a _, ?_⟩
  rw [hy, List.append_assoc, lineEnd_append (hw.notMem (by decide))]
  refine not_kernelFree_of_word (fun c hc => hlast c (getLast_lineStart hc)) hw fun c hc => ?_
  cases head_lineEnd hc
  exact hd

end Writing

end KernelWrap.Source

namespace KernelWrap.Declaration

def Matched.HasEntry (m : Matched) (line : Nat) : Prop :=
  line ∈ m.kernels.map KernelSignature.line ++ m.skipped.map ParseError.line

theorem Matched.HasEntry.add {m : Matched} {line : Nat} (h : m.HasEntry line)
    (r : Except ParseError (Option KernelSignature)) : (m.add r).HasEntry line := by
  unfold HasEntry at *
  rw [List.mem_append] at *
  unfold Matched.add
  split
  · exact h.imp_left (List.mem_cons_of_mem _)
  · exact h
  · exact h.imp_right (List.mem_cons_of_mem _)

theorem hasEntry_readLine {l : List Char} (h : ¬ KernelFree l) (line : Nat) (m : Matched) :
    (m.add (readLine l line)).HasEntry line := by
  have hn : readLine l line ≠ .ok none := by
    obtain ⟨t, ts, ht⟩ := List.exists_cons_of_ne_nil (mt fromKernel_eq_nil_iff.1 h)
    rw [readLine, readTokens, ht]
    dsimp only
    split <;> simp
  obtain ⟨hk, he⟩ := @line_of_readLine l line
  unfold Matched.HasEntry Matched.add
  rw [List.mem_append]
  split
  · next k hr => exact .inl (List.mem_map.2 ⟨k, List.mem_cons_self, hk k hr⟩)
  · next hr => exact absurd hr hn
  · next e hr => exact .inr (List.mem_map.2 ⟨e, List.mem_cons_self, he e hr⟩)

theorem hasEntry_matchLines {ls : List (List Char)} {i : Nat} {l : List Char} (hl : ls[i]? = some l)
    (h : ¬ KernelFree l) (line : Nat) : (matchLines line ls).HasEntry (line + i) := by
  induction ls generalizing i line with
  | nil => cases hl
  | cons m ls ih =>
    rw [matchLines]
    cases i with
    | zero =>
      cases hl
      exact hasEntry_readLine h line _
    | succ i =>
      have := ih hl (line + 1)
      rw [Nat.add_right_comm] at this
      exact this.add _

end KernelWrap.Declaration

namespace KernelWrap.Analysis
open Source Text Declaration

def entryLines (a : Analysis) : List Nat := a.kernels.map Kernel.line ++ a.skipped.map ParseError.line

theorem check_eq_ok {a : Analysis} (h : a.skipped = []) (strict : Bool) :
    a.check strict = .ok a := by
  unfold check
  rw [h]
  cases strict <;> rfl

theorem hasEntry_of_scan {text : List Char} {os : List Occurrence} (h : Scan [] (strip text) os)
    {o : Occurrence} (ho : o ∈ os) : (matchText (normalize (strip text))).HasEntry o.line := by
  obtain ⟨hh, hw⟩ := @Scan.writtenIn [] (strip text) [] os h rfl (fun _ c hc => by cases hc) o ho
  obtain ⟨l, hl, hk⟩ := hw.exists_line hh
  have := hasEntry_matchLines hl hk 1
  rwa [Nat.add_comm] at this

/-- Every header of the text without its comments has an entry: a kernel or a skipped declaration
that is reported on the line that the header begins on. So there are as many entries as there are
lines on which headers begin, and if nothing was skipped there are as many kernels. -/
theorem ofText_headers (text : List Char) {os : List Occurrence} (h : Scan [] (strip text) os) :
    (∀ o ∈ os, (stripWithLines text).2.sourceLine o.line ∈ (ofText text).entryLines) ∧
      (os.map Occurrence.line).dedup.length ≤
        (ofText text).kernels.length + (ofText text).skipped.length ∧
      ∀ a, (ofText text).check true = .ok a →
        (os.map Occurrence.line).dedup.length ≤ a.kernels.length := by
  have hcount : (os.map Occurrence.line).dedup.length ≤
      (ofText text).kernels.length + (ofText text).skipped.length := by
    have hsub : (os.map Occurrence.line).dedup ⊆
        (matchText (normalize (strip text))).kernels.map KernelSignature.line ++
          (matchText (normalize (strip text))).skipped.map ParseError.line := by
      intro n hn
      obtain ⟨o, ho, rfl⟩ := List.mem_map.1 (List.mem_dedup.1 hn)
      exact hasEntry_of_scan h ho
    have hlen := (List.subperm_of_subset (List.nodup_dedup _) hsub).length_le
    simp only [ofText, List.length_append, List.length_map] at hlen ⊢
    exact hlen
  refine ⟨fun o ho => ?_, hcount, fun a ha => ?_⟩
  · have hentry := hasEntry_of_scan h ho
    rw [Matched.HasEntry, List.mem_append] at hentry
    rw [entryLines, List.mem_append]
    rcases hentry with hk | he
    · obtain ⟨g, hg, hline⟩ := List.mem_map.1 hk
      refine .inl (List.mem_map.2 ⟨_, List.mem_map_of_mem hg, ?_⟩)
      show (stripWithLines text).2.sourceLine g.line = _
      rw [hline]
    · obtain ⟨e, he, hline⟩ := List.mem_map.1 he
      refine .inr (List.mem_map.2 ⟨_, List.mem_map_of_mem he, ?_⟩)
      show (stripWithLines text).2.sourceLine e.line = _
      rw [hline]
  · unfold check at ha
    split at ha
    · cases ha
    · next hs =>
      cases ha
      cases e : (ofText text).skipped with
      | nil => rwa [e, List.length_nil, Nat.add_zero] at hcount
      | cons f fs => exact absurd e (hs f fs rfl)

section Declarations

def plainHeader (n z : List Char) : List Char :=
  "kernel".toList ++ ([' '] ++ ("void".toList ++ ([' '] ++ (n ++ '(' :: z)))) ++ [')']

theorem isHeader_plainHeader {n z : List Char} (hn : isIdent n = true) (hz : ')' ∉ z) :
    IsHeader (plainHeader n z) := by
  have hg : IsBlankRun [' '] := ⟨List.cons_ne_nil _ _, List.forall_mem_singleton.2 (by decide)⟩
  exact ⟨_, @IsOpenHeader.mk _ [' '] [' '] n [] z (.inl rfl) hg hg hn (List.forall_mem_nil _) hz, rfl⟩

def pairSource (z : List Char) : List Char :=
  plainHeader ['a'] z ++ (" \x7b\x7d ".toList ++
    (plainHeader ['b'] "int y".toList ++ (" \x7b\x7d".toList ++ [])))

theorem scan_pairSource {z : List Char} (hz : ')' ∉ z) :
    Scan [] (pairSource z) [⟨[], plainHeader ['a'] z⟩,
      ⟨plainHeader ['a'] z ++ " \x7b\x7d ".toList, plainHeader ['b'] "int y".toList⟩] := by
  have ha : IsHeader (plainHeader ['a'] z) := isHeader_plainHeader (by decide) hz
  have hb : IsHeader (plainHeader ['b'] "int y".toList) :=
    isHeader_plainHeader (by decide) (by decide)
  have hw : endsInWord (plainHeader ['a'] z ++ " \x7b\x7d ".toList) = false :=
    endsInWord_of_blank fun c hc => by
      rw [List.getLast?_append_of_ne_nil _ (by decide)] at hc
      cases hc
      decide
  exact .hit rfl ha (.skips (by simp) (.hit hw hb (.skips (by simp) (.nil _))))

theorem ofText_headers_pair :
    (ofText (pairSource "\n int x".toList)).entryLines = [1, 2] ∧
      2 ≤ (ofText (pairSource "\n int x".toList)).kernels.length := by
  have hs : strip (pairSource "\n int x".toList) = pairSource "\n int x".toList := by decide +kernel
  have hscan := scan_pairSource (z := "\n int x".toList) (by decide)
  rw [← hs] at hscan
  have hskipped : (ofText (pairSource "\n int x".toList)).skipped = [] := by decide +kernel
  have hcheck := check_eq_ok hskipped true
  exact ⟨by decide +kernel, (ofText_headers _ hscan).2.2 _ hcheck⟩

/-- Headers that begin on one line share its entry: the second of two is neither found nor skipped,
and a strict analysis does not fail. -/
theorem headers_share_entry : ∃ os a, Scan [] (strip (pairSource "int x".toList)) os ∧
    (ofText (pairSource "int x".toList)).kernels.length +
      (ofText (pairSource "int x".toList)).skipped.length < os.length ∧
    (ofText (pairSource "int x".toList)).check true = .ok a ∧ a.kernels.length < os.length := by
  have hs : strip (pairSource "int x".toList) = pairSource "int x".toList := by decide +kernel
  have hscan := scan_pairSource (z := "int x".toList) (by decide)
  rw [← hs] at hscan
  have hskipped : (ofText (pairSource "int x".toList)).skipped = [] := by decide +kernel
  have hkernels : (ofText (pairSource "int x".toList)).kernels.length = 1 := by decide +kernel
  have hcheck := check_eq_ok hskipped true
  refine ⟨_, _, hscan, ?_, hcheck, ?_⟩
  · rw [hskipped, hkernels]
    decide
  · rw [hkernels]
    decide

end Declarations

end KernelWrap.Analysis
