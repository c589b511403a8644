import KernelWrap.Analysis
import KernelWrap.Proofs.Collapsing
import KernelWrap.Proofs.Tokens

/-! Reported lines. A line of the normalized text is read from its first `kernel` keyword. Line feeds
are moved to the end of headers, but never past such a keyword, since a header begins with one; so
the keyword stands on a line of the same number in the stripped text, and the line map gives its line
in the source. -/

namespace KernelWrap.Declaration
open Text

theorem isIdentStart_of_tokenKind {c : Char} {text : List Char}
    (h : tokenKind c text = .kernel ∨ tokenKind c text = .word) : isIdentStart c = true := by
  unfold tokenKind at h
  split at h
  · assumption
  · split at h
    · rcases h with h | h <;> cases h
    · unfold symbolKind at h
      repeat' split at h
      all_goals rcases h with h | h <;> cases h

/-- The first keyword of a line of the text `a ++ b` stands right behind `a`. -/
def KeywordAt (a b : List Char) : Prop :=
  ∃ t ts, fromKernel (tokenize (lineStart a ++ lineEnd b)) = t :: ts ∧
    t.offset = byteSize (lineStart a)

section Keywords

theorem mem_of_fromKernel {ts us : List Token} {t : Token} (h : fromKernel ts = t :: us) :
    t ∈ ts ∧ t.kind = .kernel := by
  have hs : fromKernel ts <:+ ts := List.dropWhile_suffix _
  have hk := List.head?_dropWhile_not (fun t : Token => t.kind != .kernel) ts
  rw [← fromKernel, h] at hk
  exact ⟨hs.subset (h ▸ List.mem_cons_self), by simpa using hk⟩

theorem KeywordAt.head {a b : List Char} (h : KeywordAt a b) :
    ∃ c z, b = c :: z ∧ isIdentStart c = true := by
  obtain ⟨t, ts, ht, ho⟩ := h
  obtain ⟨hm, hk⟩ := mem_of_fromKernel ht
  obtain ⟨x, c, z, hs, hx, hkind⟩ := mem_tokenizeFrom hm
  rw [Nat.zero_add, ho] at hx
  obtain ⟨-, hb⟩ := append_inj_of_byteSize hs hx
  rw [lineEnd] at hb
  cases b with
  | nil => cases hb
  | cons d b =>
    rw [List.takeWhile_cons] at hb
    split at hb
    · obtain ⟨rfl, -⟩ := List.cons.inj hb
      exact ⟨d, b, rfl, isIdentStart_of_tokenKind (.inl (hkind.symm.trans hk))⟩
    · cases hb

theorem KeywordAt.byteSize_le {a b x w y : List Char} (h : KeywordAt a b)
    (hl : lineStart a ++ lineEnd b = x ++ (w ++ y)) (hw : Source.IsKernelWord w)
    (hx : ∀ c ∈ x.getLast?, isIdentChar c = false) (hy : ∀ d ∈ y.head?, isIdentChar d = false) :
    byteSize (lineStart a) ≤ byteSize x := by
  obtain ⟨t, ts, ht, ho⟩ := h
  rw [hl, tokenize, tokenizeFrom_append (apart_of_last hx), tokenizeFrom_append (apart_of_head hy),
    tokenizeFrom_word hw.isIdent, hw.wordKind, Nat.zero_add, fromKernel, List.dropWhile_append] at ht
  rw [← ho]
  split at ht
  · rw [List.singleton_append, List.dropWhile_cons_of_neg (by simp)] at ht
    rw [← (List.cons.inj ht).1]
  · have hm : t ∈ tokenizeFrom 0 x := by
      cases e : List.dropWhile (fun t : Token => t.kind != .kernel) (tokenizeFrom 0 x) with
      | nil => simp [e] at *
      | cons u us =>
        rw [e] at ht
        rw [← (List.cons.inj ht).1]
        exact (List.dropWhile_suffix _).subset (e ▸ List.mem_cons_self)
    obtain ⟨z, c, u, rfl, hz, -⟩ := mem_tokenizeFrom hm
    rw [hz, byteSize_append]
    omega

end Keywords

end KernelWrap.Declaration

namespace KernelWrap.Source
open Text Declaration

section Steps

theorem head_lineEnd {s : List Char} {c : Char} (h : c ∈ (lineEnd s).head?) : c ∈ s.head? := by
  obtain ⟨z, hz⟩ : lineEnd s <+: s := List.takeWhile_prefix _
  rw [← hz]
  cases e : lineEnd s with
  | nil => simp [e] at h
  | cons d t => simpa [e] using h

theorem getLast_lineStart {s : List Char} {c : Char} (h : c ∈ (lineStart s).getLast?) :
    c ∈ s.getLast? := by
  obtain ⟨z, hz⟩ := lineStart_suffix s
  rcases List.eq_nil_or_concat (lineStart s) with e | ⟨t, d, e⟩
  · simp [e] at h
  · rw [← hz, e, List.concat_eq_append, ← List.append_assoc]
    simpa [e] using h

theorem not_keywordAt_header {h r x a' b' z : List Char} (ha : afterHeader? (h ++ r) = some r)
    (hx : ∀ c ∈ x.getLast?, isIdentChar c = false) (hc : collapse h = a' ++ b') (hn : a' ≠ [])
    (hb : b' ≠ []) : ¬ KeywordAt (x ++ a') (b' ++ z) := by
  intro hk
  obtain ⟨w, u, d, y, hw, -, hd, hy, -⟩ := collapse_header ha
  by_cases hm : '\n' ∈ a'
  · -- Behind a line feed of a header that was collapsed there are only more of them.
    obtain ⟨l, n, hl, hnot⟩ := collapse_shape h
    rcases List.append_eq_append_iff.1 (hl.symm.trans hc) with ⟨v, -, hv⟩ | ⟨v, rfl, -⟩
    · obtain ⟨c, b'', rfl⟩ := List.exists_cons_of_ne_nil hb
      have hcn : c = '\n' := List.eq_of_mem_replicate (n := n) (by rw [hv]; simp)
      obtain ⟨e, t, he, hi⟩ := hk.head
      obtain ⟨rfl, -⟩ := List.cons.inj he
      rw [hcn] at hi
      cases hi
    · exact hnot (List.mem_append_left v hm)
  · have hline : lineStart (x ++ a') ++ lineEnd (b' ++ z) =
        lineStart x ++ (w ++ lineEnd (d :: (y ++ z))) := by
      rw [lineStart_append x hm, List.append_assoc, ← lineEnd_append hm, ← List.append_assoc a', ← hc,
        hy, List.append_assoc, List.cons_append, lineEnd_append (hw.notMem (by decide))]
    have hle := hk.byteSize_le hline hw (fun c hc => hx c (getLast_lineStart hc)) fun c hc => by
      cases head_lineEnd hc
      exact hd
    rw [lineStart_append x hm, byteSize_append] at hle
    exact hn (byteSize_eq_zero (by omega))

theorem exists_moves {w : Bool} {s a' r x : List Char} (hs : normalizeFrom w s = a' ++ r)
    (hx : w = false → ∀ d ∈ x.getLast?, isIdentChar d = false) (hk : KeywordAt (x ++ a') r) :
    ∃ a, Moves w s a a' := by
  -- Before the place there is `x`, which was written earlier, and `a'`.
  induction w, s using normalize_induction generalizing a' x with
  | nil w =>
    rw [normalizeFrom_nil] at hs
    obtain ⟨rfl, -⟩ := List.append_eq_nil_iff.1 hs.symm
    exact ⟨[], .start w []⟩
  | plain w c s hc ih =>
    rw [normalizeFrom_plain hc] at hs
    cases a' with
    | nil => exact ⟨[], .start w _⟩
    | cons d a' =>
      obtain ⟨rfl, hs'⟩ := List.cons.inj hs
      have hlast : isWordChar c = false → ∀ d ∈ (x ++ [c]).getLast?, isIdentChar d = false :=
        fun hw => forall_getLast?_concat (isIdentChar_of_not_isWordChar hw) x
      obtain ⟨a, ha⟩ := ih hs' hlast (by rwa [List.append_assoc])
      exact ⟨c :: a, .plain hc ha⟩
  | header h r' ha ih =>
    rw [normalizeFrom_header ha] at hs
    have behind : ∀ {z}, a' = collapse h ++ z → normalizeFrom false r' = z ++ r →
        ∃ a, Moves false (h ++ r') a a' := by
      rintro z rfl hz
      obtain ⟨a, hm⟩ := ih (x := x ++ collapse h) hz (fun _ => forall_getLast?_collapse ha x)
        (by rwa [List.append_assoc])
      exact ⟨h ++ a, .header ha hm⟩
    rcases List.append_eq_append_iff.1 hs with ⟨z, hz, hr⟩ | ⟨z, hz, rfl⟩
    · exact behind hz hr
    · by_cases hz' : z = []
      · subst hz'
        rw [List.append_nil] at hz
        exact behind (by rw [hz, List.append_nil]) rfl
      · by_cases hn : a' = []
        · exact hn ▸ ⟨[], .start false _⟩
        · exact absurd hk (not_keywordAt_header ha (hx rfl) hz hn hz')

end Steps

section Triggers

theorem exists_line {s l : List Char} {i : Nat} (h : (splitLines s)[i]? = some l) :
    ∃ p r, s = p ++ (l ++ r) ∧ countBreaks p = i ∧ lineStart p = [] ∧ lineEnd r = [] ∧ '\n' ∉ l := by
  induction s using lines_induction generalizing i with
  | last a ha =>
    rw [splitLines_line ha, List.getElem?_singleton] at h
    split at h
    · next hi =>
      cases h
      exact ⟨[], [], by simp, hi.symm, rfl, rfl, ha⟩
    · cases h
  | above a b ha ih =>
    rw [splitLines_append, splitLines_line ha] at h
    cases i with
    | zero =>
      cases h
      exact ⟨[], '\n' :: b, rfl, rfl, rfl, rfl, ha⟩
    | succ i =>
      obtain ⟨p, r, rfl, hp, hs, hr, hl⟩ := ih h
      refine ⟨a ++ '\n' :: p, r, by simp, ?_, ?_, hr, hl⟩
      · rw [countBreaks_append, countBreaks_of_notMem ha, countBreaks, List.count_cons_self,
          ← countBreaks, hp, Nat.zero_add]
      · rw [lineStart_lineFeed, hs]

/-- The keyword that a line of the normalized text is read from, when there are `above` lines above
that line. Normalizing has written `written` for the stripped text before the place of the keyword. -/
structure Trigger (text : List Char) (above : Nat) where
  place : Place text
  written : List Char
  left : List Char
  moves : Moves false (strip text) place.stripped written
  normalize_eq : normalize (strip text) = written ++ left
  keyword : KeywordAt written left
  above_eq : countBreaks written = above

variable {text : List Char} {above : Nat}

theorem Trigger.isBlank_char (t : Trigger text above) : isBlank t.place.char = false := by
  obtain ⟨v, b, hb, hn⟩ := t.moves.rest
  obtain ⟨c, z, hc, hi⟩ := t.keyword.head
  have hleft : t.left = normalizeFrom v b :=
    List.append_cancel_left (t.normalize_eq.symm.trans hn)
  have hplace := t.place.strip_eq
  rw [hb] at hplace
  have hhead := head?_normalizeFrom v b
  rw [← hleft, hc, List.append_cancel_left hplace, List.head?_cons, List.head?_cons] at hhead
  rw [← Option.some.inj hhead]
  exact isBlank_of_isIdentChar (isIdentChar_of_isIdentStart hi)

theorem Trigger.sourceLine_eq (t : Trigger text above) (hu : t.place.Undivided) :
    (stripWithLines text).2.sourceLine (above + 1) = countBreaks t.place.source + 1 := by
  have hn : above = countBreaks t.place.stripped := t.above_eq.symm.trans t.moves.countBreaks_eq
  exact (congrArg (fun n => (stripWithLines text).2.sourceLine (n + 1)) hn).trans
    (t.place.sourceLine_eq t.isBlank_char hu)

theorem exists_trigger {l : List Char} (hl : (splitLines (normalize (strip text)))[above]? = some l)
    (hk : fromKernel (tokenize l) ≠ []) : Nonempty (Trigger text above) := by
  obtain ⟨t, ts, ht⟩ := List.exists_cons_of_ne_nil hk
  obtain ⟨hm, hkind⟩ := mem_of_fromKernel ht
  obtain ⟨q, c, z, rfl, ho, hc⟩ := mem_tokenizeFrom hm
  obtain ⟨p, r, hs, hp, hstart, hend, hnot⟩ := exists_line hl
  have hq : '\n' ∉ q := fun h => hnot (List.mem_append_left _ h)
  have hz : '\n' ∉ c :: z := fun h => hnot (List.mem_append_right _ h)
  have hn : normalize (strip text) = p ++ q ++ (c :: z ++ r) := by
    rw [hs, List.append_assoc, List.append_assoc]
  have hstart' : lineStart (p ++ q) = q := by rw [lineStart_append p hq, hstart, List.nil_append]
  have hkey : KeywordAt (p ++ q) (c :: z ++ r) := by
    refine ⟨t, ts, ?_, ?_⟩
    · rw [hstart', lineEnd_append hz, hend, List.append_nil]
      exact ht
    · rw [hstart', ho, Nat.zero_add]
  obtain ⟨a, hmoves⟩ := exists_moves (x := []) hn (fun _ d hd => by cases hd) hkey
  obtain ⟨v, b, hb, he⟩ := hmoves.rest
  -- The character behind `a` in the stripped text is the first one of the keyword.
  have hhead := head?_normalizeFrom v b
  rw [← List.append_cancel_left (hn.symm.trans he)] at hhead
  cases b with
  | nil => cases hhead
  | cons d b =>
    obtain rfl : c = d := Option.some.inj hhead
    obtain ⟨place, rfl, -⟩ := exists_place hb fun e => hz (e ▸ List.mem_cons_self)
    refine ⟨⟨place, p ++ q, c :: z ++ r, hmoves, hn, hkey, ?_⟩⟩
    rw [countBreaks_append, hp, countBreaks_of_notMem hq, Nat.add_zero]

end Triggers

end KernelWrap.Source

namespace KernelWrap.Declaration

section Matching

theorem fromKernel_of_readLine {l : List Char} {line : Nat} (h : readLine l line ≠ .ok none) :
    fromKernel (tokenize l) ≠ [] := fun e => h (by rw [readLine, readTokens, e])

theorem line_of_readLine {l : List Char} {line : Nat} :
    (∀ g, readLine l line = .ok (some g) → g.line = line) ∧
      ∀ e, readLine l line = .error e → e.line = line := by
  rw [readLine, readTokens]
  split
  · exact ⟨fun g h => (by cases h), fun e h => (by cases h)⟩
  · split
    · exact ⟨fun g h => by cases h; rfl, fun e h => (by cases h)⟩
    · refine ⟨fun g h => (by cases h), fun e h => ?_⟩
      cases h
      rw [ParseError.ofFailure]
      split <;> rfl

theorem mem_matchLines (line : Nat) (ls : List (List Char)) :
    (∀ g ∈ (matchLines line ls).kernels,
      ∃ i l, ls[i]? = some l ∧ readLine l (line + i) = .ok (some g)) ∧
    ∀ e ∈ (matchLines line ls).skipped, ∃ i l, ls[i]? = some l ∧ readLine l (line + i) = .error e := by
  induction ls generalizing line with
  | nil => exact ⟨fun g h => (List.not_mem_nil h).elim, fun e h => (List.not_mem_nil h).elim⟩
  | cons m ls ih =>
    have later : ∀ {r}, (∃ i l, ls[i]? = some l ∧ readLine l (line + 1 + i) = r) →
        ∃ i l, (m :: ls)[i]? = some l ∧ readLine l (line + i) = r := by
      rintro r ⟨i, l, hl, hr⟩
      exact ⟨i + 1, l, hl, by rwa [← Nat.add_assoc, Nat.add_right_comm]⟩
    obtain ⟨hk, he⟩ := ih (line + 1)
    rw [matchLines]
    unfold Matched.add
    split
    · next k hr =>
      refine ⟨fun g h => ?_, fun e h => later (he e h)⟩
      rcases List.mem_cons.1 h with rfl | h
      · exact ⟨0, m, rfl, hr⟩
      · exact later (hk g h)
    · exact ⟨fun g h => later (hk g h), fun e h => later (he e h)⟩
    · next f hr =>
      refine ⟨fun g h => later (hk g h), fun e h => ?_⟩
      rcases List.mem_cons.1 h with rfl | h
      · exact ⟨0, m, rfl, hr⟩
      · exact later (he e h)

end Matching

end KernelWrap.Declaration

namespace KernelWrap.Analysis
open Source Text Declaration

/-- A line number that is right for what is read from a line of the normalized text: this line has a
trigger, and where the line before the trigger is undivided the number is that of the trigger. -/
def IsLineOf (text : List Char) (above line : Nat) : Prop :=
  Nonempty (Trigger text above) ∧
    ∀ t : Trigger text above, t.place.Undivided → line = countBreaks t.place.source + 1

theorem isLineOf_sourceLine {text l : List Char} {above : Nat}
    (hl : (splitLines (normalize (strip text)))[above]? = some l)
    (hr : readLine l (above + 1) ≠ .ok none) :
    IsLineOf text above ((stripWithLines text).2.sourceLine (above + 1)) :=
  ⟨exists_trigger hl (fromKernel_of_readLine hr), fun t hu => t.sourceLine_eq hu⟩

/-- Every kernel and every declaration that is skipped is read from a line of the normalized text and
reported at the source line of the keyword that it is read from. -/
theorem ofText_lines (text : List Char) :
    (∀ k ∈ (ofText text).kernels, ∃ above l g,
      (splitLines (normalize (strip text)))[above]? = some l ∧
        readLine l (above + 1) = .ok (some g) ∧ k = .ofSignature { g with line := k.line } ∧
        IsLineOf text above k.line) ∧
    ∀ e ∈ (ofText text).skipped, ∃ above l f,
      (splitLines (normalize (strip text)))[above]? = some l ∧
        readLine l (above + 1) = .error f ∧ e = { f with line := e.line } ∧
        IsLineOf text above e.line := by
  obtain ⟨hkernels, hskipped⟩ := mem_matchLines 1 (splitLines (normalize (strip text)))
  constructor
  · intro k hk
    obtain ⟨g, hg, rfl⟩ := List.mem_map.1 hk
    obtain ⟨i, l, hl, hr⟩ := hkernels g hg
    rw [Nat.add_comm] at hr
    refine ⟨i, l, g, hl, hr, rfl, ?_⟩
    have := isLineOf_sourceLine hl (hr ▸ by simp)
    rwa [← line_of_readLine.1 g hr] at this
  · intro e he
    obtain ⟨f, hf, rfl⟩ := List.mem_map.1 he
    obtain ⟨i, l, hl, hr⟩ := hskipped f hf
    rw [Nat.add_comm] at hr
    refine ⟨i, l, f, hl, hr, rfl, ?_⟩
    have := isLineOf_sourceLine hl (hr ▸ by simp)
    rwa [← line_of_readLine.2 f hr] at this

def commentedSource : List Char := "/* a\n */ kernel void f(\n int x) \x7b\x7d\nkernel g".toList

theorem undivided_commentedSource (p : Source.Place commentedSource) : p.Undivided := by
  intro xs b ys hp _
  have hs : segments commentedSource =
      .block " a\n ".toList :: (commentedSource.drop 8).map .plain := by decide +kernel
  have hx : xs ++ .block b :: (ys ++ p.segment :: p.after) =
      .block " a\n ".toList :: (commentedSource.drop 8).map .plain := by
    rw [← hs, p.segments_eq, hp, List.append_assoc, List.cons_append]
  cases xs with
  | nil => exact .inr fun c hc => absurd hc List.not_mem_nil
  | cons x xs =>
    have hm : Segment.block b ∈ (commentedSource.drop 8).map Segment.plain := by
      rw [← (List.cons.inj hx).2]
      simp
    obtain ⟨c, -, hc⟩ := List.mem_map.1 hm
    cases hc

theorem ofText_lines_commented :
    (∃ k ∈ (ofText commentedSource).kernels, k.line = 2 ∧
      ∃ above, ∃ t : Trigger commentedSource above, t.place.Undivided ∧
        k.line = countBreaks t.place.source + 1) ∧
    ∃ e ∈ (ofText commentedSource).skipped, e.line = 4 ∧
      ∃ above, ∃ t : Trigger commentedSource above, t.place.Undivided ∧
        e.line = countBreaks t.place.source + 1 := by
  obtain ⟨hk, he⟩ := ofText_lines commentedSource
  have hkernels : (ofText commentedSource).kernels.map Kernel.line = [2] := by decide +kernel
  have hskipped : (ofText commentedSource).skipped.map ParseError.line = [4] := by decide +kernel
  constructor
  · obtain ⟨k, ks, hks, h2, -⟩ := List.map_eq_cons_iff.1 hkernels
    have hm : k ∈ (ofText commentedSource).kernels := hks ▸ List.mem_cons_self
    obtain ⟨above, l, g, -, -, -, ⟨t⟩, ht⟩ := hk k hm
    exact ⟨k, hm, h2, above, t, undivided_commentedSource t.place,
      ht t (undivided_commentedSource t.place)⟩
  · obtain ⟨e, es, hes, h4, -⟩ := List.map_eq_cons_iff.1 hskipped
    have hm : e ∈ (ofText commentedSource).skipped := hes ▸ List.mem_cons_self
    obtain ⟨above, l, f, -, -, -, ⟨t⟩, ht⟩ := he e hm
    exact ⟨e, hm, h4, above, t, undivided_commentedSource t.place,
      ht t (undivided_commentedSource t.place)⟩

end KernelWrap.Analysis
