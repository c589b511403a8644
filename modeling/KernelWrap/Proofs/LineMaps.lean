import KernelWrap.Proofs.LineNumbers
import KernelWrap.Proofs.Reporting

/-! What the line map says of every line. A line with something on it has the source line of its first
character that is not blank, since only blanks stand between that character and a comment that was cut
out before it on its line. Going down the lines no cut is ever taken back, so that later lines have
greater numbers, beyond the last line too. -/

namespace KernelWrap.Source
open Text

section Shifts

def content (ls : List (List Char)) (i : Nat) : Nat := width (ls.take i) + indent (ls[i]?.getD [])

def shift (gs : List Segment) (i : Nat) : Nat :=
  counted (cuts 0 gs) (content (splitLines (keptText gs)) i)

theorem counted_mono (cs : List Cut) {x y : Nat} (h : x ≤ y) : counted cs x ≤ counted cs y := by
  induction cs with
  | nil => exact Nat.le_refl _
  | cons c cs ih =>
    unfold counted at ih ⊢
    rw [List.takeWhile_cons, List.takeWhile_cons]
    split
    · next hx =>
      have hy : c.position ≤ y := (of_decide_eq_true hx).trans h
      rw [if_pos (decide_eq_true hy), totalBreaks, totalBreaks]
      exact Nat.add_le_add_left ih _
    · exact Nat.zero_le _

theorem content_mono {ls : List (List Char)} {i j : Nat} (hij : i ≤ j) (hj : j < ls.length) :
    content ls i ≤ content ls j := by
  obtain rfl | hlt := Nat.eq_or_lt_of_le hij
  · exact Nat.le_refl _
  · have hi : i < ls.length := hlt.trans hj
    have hget : (ls.take j)[i]? = some ls[i] := by
      rw [List.getElem?_take_of_lt hlt, List.getElem?_eq_getElem hi]
    have hline := width_take_lt hget
    have htake : (ls.take j).take i = ls.take i := by rw [List.take_take, Nat.min_eq_left hij]
    have hindent : indent ls[i] ≤ ls[i].length := Nat.sub_le _ _
    rw [htake] at hline
    rw [content, content, List.getElem?_eq_getElem hi, Option.getD_some]
    omega

theorem getElem?_lines {gs : List Segment} {i : Nat} (h : i ≤ countBreaks (keptText gs)) :
    (LineMap.ofSegments gs).lines[i]? = some (i + 1 + shift gs i) := by
  have hi : i < (splitLines (keptText gs)).length := by
    rw [length_splitLines]
    exact Nat.lt_succ_of_le h
  have hget := List.getElem?_eq_getElem hi
  have hassign := getElem?_assign hget 1 0 0 (cuts 0 gs)
  rw [LineMap.ofSegments, hassign, shift, content, hget, Option.getD_some, counted, indent]
  simp only [Nat.zero_add, Nat.add_zero, Nat.add_comm 1 i]

theorem length_lines (gs : List Segment) :
    (LineMap.ofSegments gs).lines.length = countBreaks (keptText gs) + 1 := by
  rw [LineMap.ofSegments, length_assign, length_splitLines]

theorem lastShift_ofSegments (gs : List Segment) :
    (LineMap.ofSegments gs).lastShift = shift gs (countBreaks (keptText gs)) := by
  have hlast : (LineMap.ofSegments gs).lines.getLast? =
      some (countBreaks (keptText gs) + 1 + shift gs (countBreaks (keptText gs))) := by
    rw [List.getLast?_eq_getElem?, length_lines, Nat.add_sub_cancel, getElem?_lines (Nat.le_refl _)]
  rw [LineMap.lastShift, hlast, length_lines]
  exact Nat.add_sub_cancel_left _ _

theorem sourceLine_succ (gs : List Segment) (i : Nat) :
    (LineMap.ofSegments gs).sourceLine (i + 1) =
      i + 1 + shift gs (min i (countBreaks (keptText gs))) := by
  rw [LineMap.sourceLine, if_neg (Nat.succ_ne_zero i), Nat.add_sub_cancel]
  rcases Nat.le_total i (countBreaks (keptText gs)) with h | h
  · rw [getElem?_lines h, Option.getD_some, Nat.min_eq_left h]
  · rcases Nat.eq_or_lt_of_le h with rfl | hlt
    · rw [getElem?_lines (Nat.le_refl _), Option.getD_some, Nat.min_self]
    · have hnone : (LineMap.ofSegments gs).lines[i]? = none := by
        refine List.getElem?_eq_none ?_
        rw [length_lines]
        exact hlt
      rw [hnone, Option.getD_none, lastShift_ofSegments, Nat.min_eq_right h]

theorem sourceLine_lt (gs : List Segment) {m n : Nat} (hm : 1 ≤ m) (hmn : m < n) :
    (LineMap.ofSegments gs).sourceLine m < (LineMap.ofSegments gs).sourceLine n := by
  obtain ⟨i, rfl⟩ := Nat.exists_eq_add_of_le' hm
  obtain ⟨j, rfl⟩ := Nat.exists_eq_add_of_le' (hm.trans hmn.le)
  have hlast : min j (countBreaks (keptText gs)) < (splitLines (keptText gs)).length := by
    rw [length_splitLines]
    exact Nat.lt_succ_of_le (Nat.min_le_right _ _)
  have hmin : min i (countBreaks (keptText gs)) ≤ min j (countBreaks (keptText gs)) := by omega
  have hshift : shift gs (min i (countBreaks (keptText gs))) ≤
      shift gs (min j (countBreaks (keptText gs))) := counted_mono _ (content_mono hmin hlast)
  rw [sourceLine_succ, sourceLine_succ]
  omega

end Shifts

/-- The place of the first character that is not blank on a line of the stripped text; the lines are
counted from 0. -/
structure Place.Leads {text : List Char} (p : Place text) (i : Nat) : Prop where
  above : countBreaks p.stripped = i
  indented : ∀ c ∈ lineStart p.stripped, isBlank c = true
  solid : isBlank p.char = false

section Leading

variable {text : List Char} {p q : Place text} {i : Nat}

theorem Place.length_before_le (h : p.stripped.length = q.stripped.length) :
    p.before.length ≤ q.before.length := by
  by_contra hlt
  have hsegments := p.segments_eq.symm.trans q.segments_eq
  rcases List.append_eq_append_iff.1 hsegments with ⟨z, hz, hq⟩ | ⟨z, hz, hq⟩
  · rw [hz, List.length_append] at hlt
    omega
  · -- All of the segment of `q` would stand before `p`.
    cases z with
    | nil =>
      rw [hz, List.append_nil] at hlt
      exact hlt (Nat.le_refl _)
    | cons g z =>
      obtain ⟨rfl, -⟩ := List.cons.inj hq
      have hp : p.stripped.length = (keptText q.before).length + (q.segment.kept.length +
          (keptText z).length) + p.inside.length := by
        rw [Place.stripped, hz, keptText_append, keptText_cons]
        simp only [List.length_append]
      have hq : q.stripped.length = (keptText q.before).length + q.inside.length := by
        rw [Place.stripped, List.length_append]
      rw [q.kept_eq, List.length_append, List.length_cons] at hp
      omega

theorem Place.eq_of_length (h : p.stripped.length = q.stripped.length) : p = q := by
  have hlength := Nat.le_antisymm (length_before_le h) (length_before_le h.symm)
  obtain ⟨hbefore, hrest⟩ := List.append_inj (p.segments_eq.symm.trans q.segments_eq) hlength
  obtain ⟨hsegment, hafter⟩ := List.cons.inj hrest
  have hinside : p.inside.length = q.inside.length := by
    rw [Place.stripped, Place.stripped, hbefore, List.length_append, List.length_append] at h
    omega
  have hsource := p.source_eq.symm.trans ((congrArg Segment.source hsegment).trans q.source_eq)
  obtain ⟨hin, hout⟩ := List.append_inj hsource hinside
  obtain ⟨hchar, houtside⟩ := List.cons.inj hout
  cases p
  cases q
  simp only at hbefore hsegment hafter hin hchar houtside
  subst hbefore hsegment hafter hin hchar houtside
  rfl

namespace Place.Leads

theorem undivided (h : p.Leads i) : p.Undivided := by
  intro xs b ys hbefore _
  by_cases hn : '\n' ∈ keptText ys ++ p.inside
  · exact .inl hn
  · have hstripped : p.stripped = keptText xs ++ (keptText ys ++ p.inside) := by
      rw [Place.stripped, hbefore, keptText_append, keptText_cons, List.append_assoc]
      rfl
    have hstart : lineStart p.stripped = lineStart (keptText xs) ++ (keptText ys ++ p.inside) := by
      rw [hstripped, lineStart_append _ hn]
    refine .inr fun c hc => h.indented c ?_
    rw [hstart]
    exact List.mem_append_left _ hc

theorem sourceLine_eq (h : p.Leads i) :
    (stripWithLines text).2.sourceLine (i + 1) = 1 + countBreaks p.source := by
  rw [← h.above, p.sourceLine_eq h.solid h.undivided, Nat.add_comm]

theorem line (h : p.Leads i) :
    ∃ z, (splitLines (strip text))[i]? = some (lineStart p.stripped ++ p.char :: z) := by
  have hn : p.char ≠ '\n' := by
    intro e
    have := h.solid
    rw [e] at this
    cases this
  have hend : lineEnd (p.char :: (p.outside ++ keptText p.after)) =
      p.char :: lineEnd (p.outside ++ keptText p.after) :=
    List.takeWhile_cons_of_pos (bne_iff_ne.2 hn)
  exact ⟨_, by rw [p.strip_eq, ← h.above, getElem?_splitLines, hend]⟩

theorem lineStart_eq {l : List Char} (h : p.Leads i) (hl : (splitLines (strip text))[i]? = some l) :
    lineStart p.stripped = l.takeWhile isBlank := by
  obtain ⟨z, hz⟩ := h.line
  rw [hz] at hl
  rw [← Option.some.inj hl, List.takeWhile_append_of_pos h.indented,
    List.takeWhile_cons_of_neg (by rw [h.solid]; decide), List.append_nil]

theorem length_stripped (h : p.Leads i) : p.stripped.length =
    width ((splitLines (strip text)).take i) + (lineStart p.stripped).length := by
  have hwidth := width_dropLast p.stripped
  have htake : (splitLines (strip text)).take i = (splitLines p.stripped).dropLast := by
    rw [p.strip_eq, ← h.above, take_splitLines]
  rw [htake, hwidth]

theorem unique (hp : p.Leads i) (hq : q.Leads i) : p = q := by
  obtain ⟨z, hz⟩ := hp.line
  have hstart : lineStart p.stripped = lineStart q.stripped :=
    (hp.lineStart_eq hz).trans (hq.lineStart_eq hz).symm
  refine Place.eq_of_length ?_
  rw [hp.length_stripped, hq.length_stripped, hstart]

end Place.Leads

theorem exists_leads {l : List Char} (hl : (splitLines (strip text))[i]? = some l)
    (hsolid : ∃ c ∈ l, isBlank c = false) : ∃ p : Place text, p.Leads i := by
  obtain ⟨a, r, htext, habove, hstart, -, hnot⟩ := exists_line hl
  obtain ⟨d, hd, hblank⟩ := hsolid
  obtain ⟨c, z, hc⟩ : ∃ c z, l.dropWhile isBlank = c :: z := by
    refine List.exists_cons_of_ne_nil fun hn => ?_
    rw [List.dropWhile_eq_nil_iff.1 hn d hd] at hblank
    cases hblank
  have hchar : isBlank c = false := by
    have := List.head?_dropWhile_not isBlank l
    rw [hc] at this
    simpa using this
  have hline : l = l.takeWhile isBlank ++ c :: z := by
    rw [← hc, List.takeWhile_append_dropWhile]
  have hnone : '\n' ∉ l.takeWhile isBlank := fun hm => hnot ((List.takeWhile_prefix _).subset hm)
  have hplace : strip text = a ++ l.takeWhile isBlank ++ c :: (z ++ r) := by
    rw [htext]
    conv_lhs => rw [hline]
    simp only [List.append_assoc, List.cons_append]
  have hfeed : c ≠ '\n' := by
    rintro rfl
    cases hchar
  obtain ⟨p, hp, rfl⟩ := exists_place hplace hfeed
  refine ⟨p, ?_, fun e he => ?_, hchar⟩
  · rw [hp, countBreaks_append, habove, countBreaks_of_notMem hnone, Nat.add_zero]
  · rw [hp, lineStart_append _ hnone, hstart, List.nil_append] at he
    exact List.mem_takeWhile_imp he

end Leading

/-- Every line of the stripped text that is not blank has one place that leads it, and the line map
gives the source line of that place: one more than the line feeds before it in the source. The source
lines of the lines from 1 on ascend, and go on to beyond the last line. -/
theorem sourceLine_leads (text : List Char) :
    (∀ i l, (splitLines (strip text))[i]? = some l → (∃ c ∈ l, isBlank c = false) →
      (∃! p : Place text, p.Leads i) ∧ ∀ p : Place text, p.Leads i →
        (∃ z, l = lineStart p.stripped ++ p.char :: z) ∧ (∃ z, text = p.source ++ p.char :: z) ∧
          (stripWithLines text).2.sourceLine (i + 1) = 1 + countBreaks p.source) ∧
      ∀ m n, 1 ≤ m → m < n →
        (stripWithLines text).2.sourceLine m < (stripWithLines text).2.sourceLine n := by
  refine ⟨fun i l hl hsolid => ?_, fun m n hm hmn => sourceLine_lt _ hm hmn⟩
  obtain ⟨p, hp⟩ := exists_leads hl hsolid
  refine ⟨⟨p, hp, fun q hq => hq.unique hp⟩, fun q hq => ?_⟩
  obtain ⟨z, hz⟩ := hq.line
  exact ⟨⟨z, Option.some.inj (hl.symm.trans hz)⟩, ⟨_, q.text_eq⟩, hq.sourceLine_eq⟩

def splitSource : List Char := "int a; /* b\n */ \n /* c\n\n */ /* d\n */e".toList

theorem sourceLine_leads_split :
    (∃! p : Place splitSource, p.Leads 1) ∧
      (stripWithLines splitSource).2.sourceLine 2 = 6 ∧
      (∀ p : Place splitSource, p.Leads 1 → 6 = 1 + countBreaks p.source) ∧
      (stripWithLines splitSource).2.sourceLine 2 < (stripWithLines splitSource).2.sourceLine 3 := by
  obtain ⟨hlines, hascend⟩ := sourceLine_leads splitSource
  have hline : (splitLines (strip splitSource))[1]? = some "  e".toList := by decide +kernel
  have hmap : (stripWithLines splitSource).2.sourceLine 2 = 6 := by decide +kernel
  obtain ⟨hunique, hplace⟩ := hlines 1 "  e".toList hline ⟨'e', by decide, by decide⟩
  exact ⟨hunique, hmap, fun p hp => hmap.symm.trans (hplace p hp).2.2,
    hascend 2 3 (by decide) (by decide)⟩

end KernelWrap.Source
