import KernelWrap.Proofs.Closed
import KernelWrap.Proofs.Lines
import KernelWrap.Source.LineMap
import Mathlib.Algebra.BigOperators.Group.List.Basic
import Mathlib.Algebra.GroupWithZero.Nat
import Mathlib.Data.List.DropRight

/-! Places of a source and their lines. Stripping keeps plain characters and literals as they are,
so every character that it keeps has a place in the source and one in the stripped text. The line
map is right about such a place unless a comment with a line feed was cut out of the line before it,
behind a character that is not blank. -/

namespace KernelWrap.Text

def lineStart (s : List Char) : List Char := s.rtakeWhile (· != '\n')

def lineEnd (s : List Char) : List Char := s.takeWhile (· != '\n')

section Lines

theorem lineStart_concat (s : List Char) {c : Char} (h : c ≠ '\n') :
    lineStart (s ++ [c]) = lineStart s ++ [c] :=
  List.rtakeWhile_concat_pos _ s c (bne_iff_ne.2 h)

theorem lineStart_of_notMem {s : List Char} (h : '\n' ∉ s) : lineStart s = s :=
  List.rtakeWhile_eq_self_iff.2 fun _ hc => bne_iff_ne.2 fun e => h (e ▸ hc)

theorem lineStart_append (a : List Char) {b : List Char} (h : '\n' ∉ b) :
    lineStart (a ++ b) = lineStart a ++ b := by
  induction b using List.reverseRecOn with
  | nil => rw [List.append_nil, List.append_nil]
  | append_singleton b c ih =>
    rw [List.mem_append, not_or, List.mem_singleton] at h
    rw [← List.append_assoc, lineStart_concat _ (Ne.symm h.2), ih h.1, List.append_assoc]

theorem lineStart_lineFeed (a b : List Char) : lineStart (a ++ '\n' :: b) = lineStart b := by
  induction b using List.reverseRecOn with
  | nil => exact List.rtakeWhile_concat_neg _ a '\n' (by decide)
  | append_singleton b c ih =>
    have e : a ++ '\n' :: (b ++ [c]) = a ++ '\n' :: b ++ [c] := by simp
    by_cases hc : c = '\n'
    · subst hc
      rw [e, lineStart, lineStart, List.rtakeWhile_concat_neg _ _ _ (by decide),
        List.rtakeWhile_concat_neg _ _ _ (by decide)]
    · rw [e, lineStart_concat _ hc, lineStart_concat _ hc, ih]

theorem lineStart_append_of_mem (a : List Char) {b : List Char} (h : '\n' ∈ b) :
    lineStart (a ++ b) = lineStart b := by
  obtain ⟨x, y, rfl⟩ := List.append_of_mem h
  rw [← List.append_assoc, lineStart_lineFeed, lineStart_lineFeed]

theorem lineStart_suffix (s : List Char) : lineStart s <:+ s := List.rtakeWhile_suffix _ s

theorem lineEnd_append {a : List Char} (h : '\n' ∉ a) (b : List Char) :
    lineEnd (a ++ b) = a ++ lineEnd b :=
  List.takeWhile_append_of_pos fun _ hc => bne_iff_ne.2 fun e => h (e ▸ hc)

theorem splitLines_ne_nil (s : List Char) : splitLines s ≠ [] := pieces_ne_nil '\n' s

theorem splitLines_head_append {a : List Char} (h : '\n' ∉ a) (b : List Char) :
    splitLines (a ++ b) = (a ++ lineEnd b) :: (splitLines b).tail := by
  by_cases hm : '\n' ∈ b
  · obtain ⟨b, d, rfl, hb⟩ := List.eq_append_cons_of_mem hm
    have hl : lineEnd (b ++ '\n' :: d) = b := by
      rw [lineEnd_append hb, lineEnd, List.takeWhile_cons_of_neg (by decide), List.append_nil]
    rw [← List.append_assoc, splitLines_append, splitLines_append, splitLines_line hb,
      splitLines_line fun hm => (List.mem_append.1 hm).elim h hb, hl]
    rfl
  · have hl : lineEnd b = b :=
      List.takeWhile_eq_self_iff.2 fun _ hc => bne_iff_ne.2 fun e => hm (e ▸ hc)
    rw [splitLines_line hm, splitLines_line fun hc => (List.mem_append.1 hc).elim h hm, hl]
    rfl

theorem splitLines_seam (a b : List Char) :
    splitLines (a ++ b) =
      (splitLines a).dropLast ++ (lineStart a ++ lineEnd b) :: (splitLines b).tail := by
  induction a using lines_induction with
  | last a ha =>
    rw [splitLines_head_append ha, splitLines_line ha, lineStart_of_notMem ha]
    rfl
  | above x y hx ih =>
    rw [List.append_assoc, List.cons_append, splitLines_append, splitLines_append, ih,
      lineStart_lineFeed, splitLines_line hx, List.dropLast_append_of_ne_nil (splitLines_ne_nil y),
      List.append_assoc]

theorem splitLines_middle (a : List Char) {m : List Char} (hm : '\n' ∉ m) (r : List Char) :
    splitLines (a ++ (m ++ r)) =
      (splitLines a).dropLast ++ (lineStart a ++ (m ++ lineEnd r)) :: (splitLines r).tail := by
  rw [splitLines_seam, lineEnd_append hm, splitLines_head_append hm, List.tail_cons]

theorem getElem?_splitLines (a b : List Char) :
    (splitLines (a ++ b))[countBreaks a]? = some (lineStart a ++ lineEnd b) := by
  have hl : (splitLines a).dropLast.length = countBreaks a := by
    rw [List.length_dropLast, length_splitLines, Nat.add_sub_cancel]
  rw [splitLines_seam, List.getElem?_append_right (Nat.le_of_eq hl), hl, Nat.sub_self]
  rfl

theorem take_splitLines (a b : List Char) :
    (splitLines (a ++ b)).take (countBreaks a) = (splitLines a).dropLast := by
  have hl : (splitLines a).dropLast.length = countBreaks a := by
    rw [List.length_dropLast, length_splitLines, Nat.add_sub_cancel]
  rw [splitLines_seam, ← hl, List.take_left]

def width (ls : List (List Char)) : Nat := (ls.map fun l => l.length + 1).sum

theorem width_dropLast (s : List Char) :
    width (splitLines s).dropLast + (lineStart s).length = s.length := by
  induction s using lines_induction with
  | last s hs =>
    rw [splitLines_line hs, lineStart_of_notMem hs]
    exact Nat.zero_add _
  | above a b ha ih =>
    rw [splitLines_append, splitLines_line ha,
      List.dropLast_append_of_ne_nil (splitLines_ne_nil b), lineStart_lineFeed,
      List.length_append, List.length_cons, width, List.singleton_append, List.map_cons, List.sum_cons,
      ← width]
    omega

theorem skipBlanks_append_cons {c : Char} (hc : isBlank c = false) (a r : List Char) :
    skipBlanks (a ++ c :: r) = skipBlanks a ++ c :: r := by
  induction a with
  | nil => exact List.dropWhile_cons_of_neg (by simp [hc])
  | cons d a ih =>
    simp only [skipBlanks, List.cons_append, List.dropWhile_cons]
    split
    · exact ih
    · rfl

theorem length_skipBlanks_append {x y : List Char} {c : Char} (hc : isBlank c = false) :
    y.length < (skipBlanks (x ++ c :: y)).length := by
  rw [skipBlanks_append_cons hc, List.length_append, List.length_cons]
  omega

theorem length_skipBlanks_le_of_blank {x : List Char} (hx : ∀ c ∈ x, isBlank c = true)
    (y : List Char) : (skipBlanks (x ++ y)).length ≤ y.length := by
  rw [skipBlanks, List.dropWhile_append_of_pos hx]
  exact length_skipBlanks_le y

theorem countBreaks_append (a b : List Char) : countBreaks (a ++ b) = countBreaks a + countBreaks b :=
  List.count_append

theorem countBreaks_of_notMem {s : List Char} (h : '\n' ∉ s) : countBreaks s = 0 :=
  List.count_eq_zero.2 h

end Lines

end KernelWrap.Text

namespace KernelWrap.Source
open Text

section Cuts

theorem totalBreaks_append (cs ds : List Cut) :
    totalBreaks (cs ++ ds) = totalBreaks cs + totalBreaks ds := by
  induction cs with
  | nil => exact (Nat.zero_add _).symm
  | cons c cs ih => rw [List.cons_append, totalBreaks, totalBreaks, ih, Nat.add_assoc]

theorem cuts_append (position : Nat) (gs hs : List Segment) :
    cuts position (gs ++ hs) = cuts position gs ++ cuts (position + (keptText gs).length) hs := by
  induction gs generalizing position with
  | nil => rfl
  | cons g gs ih =>
    rw [List.cons_append, cuts, cuts, ih, keptText_cons, List.length_append, Nat.add_assoc]
    split <;> rfl

theorem mem_cuts {c : Cut} {position : Nat} {gs : List Segment} (h : c ∈ cuts position gs) :
    ∃ xs g ys, gs = xs ++ g :: ys ∧ c.position = position + (keptText xs).length ∧
      0 < g.lostBreaks := by
  induction gs generalizing position with
  | nil => cases h
  | cons g gs ih =>
    have hc : (0 < g.lostBreaks ∧ c = ⟨position, g.lostBreaks⟩) ∨
        c ∈ cuts (position + g.kept.length) gs := by
      rw [cuts] at h
      split at h
      · next hg => exact (List.mem_cons.1 h).imp_left fun e => ⟨hg, e⟩
      · exact .inr h
    rcases hc with ⟨hg, rfl⟩ | hc
    · exact ⟨[], g, gs, rfl, rfl, hg⟩
    · obtain ⟨xs, d, ys, rfl, hp, hd⟩ := ih hc
      refine ⟨g :: xs, d, ys, rfl, ?_, hd⟩
      rw [hp, keptText_cons, List.length_append, Nat.add_assoc]

/-- The line of the map that has the number `i` when counted from 0. The cuts that count for it lie
at its first character that is not blank or before it. -/
theorem getElem?_assign {ls : List (List Char)} {i : Nat} {l : List Char} (h : ls[i]? = some l)
    (line offset shift : Nat) (pending : List Cut) :
    (LineMap.assign line offset shift pending ls)[i]? =
      some (line + i + shift + totalBreaks (pending.takeWhile fun c =>
        c.position ≤ offset + width (ls.take i) + (l.length - (skipBlanks l).length))) := by
  induction ls generalizing i line offset shift pending with
  | nil => cases h
  | cons m ls ih =>
    cases i with
    | zero =>
      cases h
      simp only [LineMap.assign, List.getElem?_cons_zero, List.take_zero, width, List.map_nil,
        List.sum_nil, Nat.add_zero, Nat.add_assoc]
    | succ i =>
      rw [List.getElem?_cons_succ] at h
      rw [LineMap.assign, List.getElem?_cons_succ, ih h]
      -- What was due on the first line is due on the later one as well.
      have hw : offset + m.length + 1 + width (ls.take i) = offset + width ((m :: ls).take (i + 1)) := by
        rw [List.take_succ_cons, width, width, List.map_cons, List.sum_cons]
        omega
      rw [hw]
      generalize hx : offset + (m.length - (skipBlanks m).length) = x
      generalize hy : offset + width ((m :: ls).take (i + 1)) + (l.length - (skipBlanks l).length) = y
      have hxy : x ≤ y := by
        rw [← hx, ← hy, ← hw]
        omega
      have ht : pending.takeWhile (fun c => c.position ≤ y) =
          pending.takeWhile (fun c => c.position ≤ x) ++
            (pending.dropWhile fun c => c.position ≤ x).takeWhile fun c => c.position ≤ y := by
        conv_lhs => rw [← List.takeWhile_append_dropWhile (p := fun c : Cut => decide (c.position ≤ x))
          (l := pending)]
        refine List.takeWhile_append_of_pos fun c hc => ?_
        have := List.mem_takeWhile_imp hc
        simp only [decide_eq_true_eq] at this ⊢
        omega
      rw [ht, totalBreaks_append]
      congr 1
      omega

end Cuts

/-- A place where stripping keeps a character of a text: the segments before the one that holds the
character, and the parts of this one before and behind the character. -/
structure Place (text : List Char) where
  before : List Segment
  segment : Segment
  after : List Segment
  inside : List Char
  char : Char
  outside : List Char
  segments_eq : segments text = before ++ segment :: after
  source_eq : segment.source = inside ++ char :: outside
  kept_eq : segment.kept = inside ++ char :: outside

namespace Place

variable {text : List Char}

def source (p : Place text) : List Char := sourceText p.before ++ p.inside

def stripped (p : Place text) : List Char := keptText p.before ++ p.inside

/-- No block comment with a line feed was cut out between the first character of the line of a place
in the stripped text that is not blank and the place: each such comment before the place is on a
line above it or has only blanks before it on its line. -/
def Undivided (p : Place text) : Prop :=
  ∀ xs b ys, p.before = xs ++ .block b :: ys → '\n' ∈ b →
    '\n' ∈ keptText ys ++ p.inside ∨ ∀ c ∈ lineStart (keptText xs), isBlank c = true

theorem text_eq (p : Place text) : text = p.source ++ p.char :: (p.outside ++ sourceText p.after) := by
  have h : sourceText (segments text) = text := source_segments text
  refine h.symm.trans ?_
  rw [p.segments_eq, sourceText_append, sourceText_cons, p.source_eq, source, List.append_assoc,
    List.append_assoc, List.cons_append]

theorem strip_eq (p : Place text) :
    strip text = p.stripped ++ p.char :: (p.outside ++ keptText p.after) := by
  rw [strip, p.segments_eq, keptText_append, keptText_cons, p.kept_eq, stripped, List.append_assoc,
    List.append_assoc, List.cons_append]

end Place

section Segments

theorem lineSegment_eq {s b r : List Char} {ended : Bool} (h : lineSegment s = (.line b ended, r)) :
    '\n' ∉ b ∧ (ended = false → r = []) := by
  have hb : '\n' ∉ s.takeWhile (· != '\n') := fun hm => by simpa using List.mem_takeWhile_imp hm
  unfold lineSegment at h
  split at h
  · cases h
    exact ⟨hb, fun _ => rfl⟩
  · cases h
    exact ⟨hb, fun e => Bool.noConfusion e⟩

theorem nextSegment_line {c : Char} {s b r : List Char} {ended : Bool}
    (h : nextSegment c s = (.line b ended, r)) : '\n' ∉ b ∧ (ended = false → r = []) := by
  unfold nextSegment at h
  repeat' split at h
  all_goals first | exact lineSegment_eq h | cases h

theorem segments_line {text b : List Char} {ended : Bool} {xs ys : List Segment}
    (h : segments text = xs ++ .line b ended :: ys) : '\n' ∉ b ∧ (ended = false → ys = []) := by
  fun_induction segments text generalizing xs with
  | case1 => simp at h
  | case2 c s ih =>
    cases xs with
    | nil =>
      obtain ⟨hg, hs⟩ := List.cons.inj h
      obtain ⟨hb, hr⟩ := nextSegment_line (Prod.ext hg rfl : nextSegment c s = (.line b ended, _))
      refine ⟨hb, fun e => ?_⟩
      have hn : (nextSegment c s).snd = [] := hr e
      rw [← hs, hn, segments]
    | cons x xs => exact ih (List.cons.inj h).2

theorem block_of_lostBreaks {text : List Char} {xs ys : List Segment} {g : Segment}
    (h : segments text = xs ++ g :: ys) (hg : 0 < g.lostBreaks) :
    ∃ b, g = .block b ∧ '\n' ∈ b := by
  cases g with
  | plain c => simp [Segment.lostBreaks, Segment.source, Segment.kept] at hg
  | literal t => simp [Segment.lostBreaks, Segment.source, Segment.kept] at hg
  | line b ended =>
    have hb : b.count '\n' = 0 := List.count_eq_zero.2 (segments_line h).1
    cases ended <;> simp [Segment.lostBreaks, Segment.source, Segment.kept, countBreaks, hb] at hg
  | block b =>
    refine ⟨b, rfl, List.count_pos_iff.1 ?_⟩
    simpa [Segment.lostBreaks, Segment.source, Segment.kept, countBreaks, List.count_append] using hg

theorem countBreaks_segment {text : List Char} {xs ys : List Segment} {g : Segment}
    (h : segments text = xs ++ g :: ys) (hy : ys ≠ []) :
    countBreaks g.source = countBreaks g.kept + g.lostBreaks := by
  have hk : countBreaks g.kept ≤ countBreaks g.source := by
    cases g with
    | plain c => exact Nat.le_refl _
    | literal t => exact Nat.le_refl _
    | block b => exact Nat.zero_le _
    | line b ended =>
      cases ended with
      | false => exact absurd ((segments_line h).2 rfl) hy
      | true => simp [Segment.source, Segment.kept, countBreaks, List.count_append]
  rw [Segment.lostBreaks]
  omega

theorem countBreaks_sourceText {text : List Char} {gs ys : List Segment}
    (h : segments text = gs ++ ys) (hy : ys ≠ []) (position : Nat) :
    countBreaks (sourceText gs) =
      countBreaks (keptText gs) + totalBreaks (cuts position gs) := by
  induction gs using List.reverseRecOn generalizing ys with
  | nil => rfl
  | append_singleton gs g ih =>
    rw [List.append_assoc, List.singleton_append] at h
    have hg : totalBreaks (cuts (position + (keptText gs).length) [g]) = g.lostBreaks := by
      rw [cuts]
      split
      · rfl
      · next hl => exact (Nat.eq_zero_of_not_pos hl).symm
    rw [sourceText_append, keptText_append, countBreaks_append, countBreaks_append, cuts_append,
      totalBreaks_append, ih h (List.cons_ne_nil g ys), hg, sourceText_cons, keptText_cons,
      sourceText_nil, keptText_nil, List.append_nil, List.append_nil, countBreaks_segment h hy]
    omega

end Segments

namespace Place

variable {text : List Char}

theorem lostBreaks_segment (p : Place text) : p.segment.lostBreaks = 0 := by
  rw [Segment.lostBreaks, p.source_eq, p.kept_eq, Nat.sub_self]

theorem content_le (p : Place text) (hb : isBlank p.char = false) (r : List Char) :
    (lineStart p.stripped ++ p.char :: r).length -
      (skipBlanks (lineStart p.stripped ++ p.char :: r)).length ≤ (lineStart p.stripped).length := by
  have := length_skipBlanks_append (x := lineStart p.stripped) (y := r) hb
  rw [List.length_append, List.length_cons]
  omega

theorem position_le_content (p : Place text) (hu : p.Undivided) {c : Cut} (hc : c ∈ cuts 0 p.before)
    (r : List Char) :
    c.position ≤ width (splitLines p.stripped).dropLast + ((lineStart p.stripped ++ r).length -
      (skipBlanks (lineStart p.stripped ++ r)).length) := by
  have hw := width_dropLast p.stripped
  obtain ⟨xs, g, ys, hg, hpos, hl⟩ := mem_cuts hc
  have hseg : segments text = xs ++ g :: (ys ++ p.segment :: p.after) := by
    rw [p.segments_eq, hg, List.append_assoc, List.cons_append]
  obtain ⟨b, rfl, hb⟩ := block_of_lostBreaks hseg hl
  have hs : p.stripped = keptText xs ++ (keptText ys ++ p.inside) := by
    rw [stripped, hg, keptText_append, keptText_cons, List.append_assoc]
    rfl
  have hlen := congrArg List.length hs
  rw [List.length_append] at hlen
  rw [hpos, Nat.zero_add]
  by_cases hn : '\n' ∈ keptText ys ++ p.inside
  · -- The comment was cut out above the line.
    have := (lineStart_suffix (keptText ys ++ p.inside)).length_le
    rw [← lineStart_append_of_mem (keptText xs) hn, ← hs] at this
    omega
  · have hx := (hu xs b ys hg hb).resolve_left hn
    have hl : lineStart p.stripped = lineStart (keptText xs) ++ (keptText ys ++ p.inside) := by
      rw [hs, lineStart_append _ hn]
    have hrest := length_skipBlanks_le_of_blank hx (keptText ys ++ p.inside ++ r)
    have hall : (lineStart (keptText xs) ++ (keptText ys ++ p.inside ++ r)).length =
        (lineStart (keptText xs)).length + (keptText ys ++ p.inside ++ r).length :=
      List.length_append
    rw [hl, List.length_append] at hw
    rw [hl, List.append_assoc, hall]
    omega

theorem takeWhile_cuts (p : Place text) (hb : isBlank p.char = false) (hu : p.Undivided)
    (r : List Char) :
    (cuts 0 (segments text)).takeWhile (fun c => c.position ≤
      0 + width (splitLines p.stripped).dropLast + ((lineStart p.stripped ++ p.char :: r).length -
        (skipBlanks (lineStart p.stripped ++ p.char :: r)).length)) = cuts 0 p.before := by
  have hw := width_dropLast p.stripped
  have hc := p.content_le hb r
  have hlater : ∀ c ∈ cuts (0 + (keptText p.before).length) (p.segment :: p.after),
      p.stripped.length < c.position := by
    intro c h
    rw [cuts, if_neg (by rw [p.lostBreaks_segment]; decide)] at h
    obtain ⟨xs, g, ys, -, hpos, -⟩ := mem_cuts h
    rw [hpos, p.kept_eq, stripped, List.length_append, List.length_append, List.length_cons]
    omega
  rw [p.segments_eq, cuts_append, List.takeWhile_append_of_pos]
  · cases e : cuts (0 + (keptText p.before).length) (p.segment :: p.after) with
    | nil => rw [List.takeWhile_nil, List.append_nil]
    | cons c cs =>
      have := hlater c (e ▸ List.mem_cons_self)
      rw [List.takeWhile_cons_of_neg, List.append_nil]
      rw [decide_eq_true_eq]
      omega
  · intro c h
    have := p.position_le_content hu h (p.char :: r)
    rw [decide_eq_true_eq]
    omega

theorem sourceLine_eq (p : Place text) (hb : isBlank p.char = false) (hu : p.Undivided) :
    (stripWithLines text).2.sourceLine (countBreaks p.stripped + 1) = countBreaks p.source + 1 := by
  have hn : p.char ≠ '\n' := fun e => by rw [e] at hb; cases hb
  obtain ⟨r, hr⟩ : ∃ r, lineEnd (p.char :: (p.outside ++ keptText p.after)) = p.char :: r :=
    ⟨_, List.takeWhile_cons_of_pos (bne_iff_ne.2 hn)⟩
  have hline : (splitLines (strip text))[countBreaks p.stripped]? =
      some (lineStart p.stripped ++ p.char :: r) := by
    rw [p.strip_eq, getElem?_splitLines, hr]
  have htake : (splitLines (strip text)).take (countBreaks p.stripped) =
      (splitLines p.stripped).dropLast := by
    rw [p.strip_eq, take_splitLines]
  have hassign := getElem?_assign hline 1 0 0 (cuts 0 (segments text))
  rw [htake, p.takeWhile_cuts hb hu] at hassign
  have hlines : (stripWithLines text).2.lines =
      LineMap.assign 1 0 0 (cuts 0 (segments text)) (splitLines (strip text)) := rfl
  rw [LineMap.sourceLine, if_neg (Nat.succ_ne_zero _), Nat.add_sub_cancel, hlines, hassign,
    Option.getD_some, source, stripped, countBreaks_append, countBreaks_append,
    countBreaks_sourceText p.segments_eq (List.cons_ne_nil _ _) 0]
  omega

end Place

theorem exists_segment {gs : List Segment} {a r : List Char} {c : Char}
    (h : keptText gs = a ++ c :: r) :
    ∃ xs g ys x y, gs = xs ++ g :: ys ∧ g.kept = x ++ c :: y ∧ a = keptText xs ++ x := by
  induction gs generalizing a with
  | nil => simp at h
  | cons g gs ih =>
    rw [keptText_cons] at h
    rcases List.append_eq_append_iff.1 h with ⟨z, rfl, hz⟩ | ⟨z, hg, hz⟩
    · obtain ⟨xs, d, ys, x, y, rfl, hd, rfl⟩ := ih hz
      exact ⟨g :: xs, d, ys, x, y, rfl, hd, by rw [keptText_cons, List.append_assoc]⟩
    · cases z with
      | nil =>
        obtain ⟨xs, d, ys, x, y, rfl, hd, hx⟩ := ih (a := []) hz.symm
        rw [List.append_nil] at hg
        refine ⟨g :: xs, d, ys, x, y, rfl, hd, ?_⟩
        rw [keptText_cons, List.append_assoc, ← hx, List.append_nil, hg]
      | cons d z =>
        obtain ⟨rfl, -⟩ := List.cons.inj hz
        exact ⟨[], g, gs, a, z, rfl, hg, rfl⟩

theorem exists_place {text a r : List Char} {c : Char} (h : strip text = a ++ c :: r)
    (hc : c ≠ '\n') : ∃ p : Place text, p.stripped = a ∧ p.char = c := by
  obtain ⟨xs, g, ys, x, y, hgs, hk, rfl⟩ := exists_segment h
  have hs : g.source = g.kept := by
    cases g with
    | plain d => rfl
    | literal t => rfl
    | block b => simp [Segment.kept] at hk
    | line b ended =>
      have hm : c ∈ (Segment.line b ended).kept := by simp [hk]
      exact absurd (List.mem_singleton.1 hm) hc
  exact ⟨⟨xs, g, ys, x, c, y, hgs, hs.trans hk, hk⟩, rfl, rfl⟩

end KernelWrap.Source
