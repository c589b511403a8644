import KernelWrap.Proofs.Places

/-! The line map of a source does not depend on what its literals say. A literal has no line feed, so
lines keep their numbers, and it begins with a quote, so the blanks at the start of its line end
before it. The cuts before it lie at the same places, and those behind it move with the text. -/

namespace KernelWrap.Source
open Text

def indent (l : List Char) : Nat := l.length - (skipBlanks l).length

/-- The line feeds that were taken out up to a position of the stripped text. -/
def counted (cs : List Cut) (x : Nat) : Nat := totalBreaks (cs.takeWhile fun c => c.position ≤ x)

section Counting

theorem counted_append_of_lt {ds : List Cut} {x : Nat} (h : ∀ c ∈ ds, x < c.position)
    (cs : List Cut) : counted (cs ++ ds) x = counted cs x := by
  have hd : ds.takeWhile (fun c => decide (c.position ≤ x)) = [] := by
    cases ds with
    | nil => rfl
    | cons d ds =>
      have := h d List.mem_cons_self
      exact List.takeWhile_cons_of_neg (by simpa using this)
  induction cs with
  | nil => exact congrArg totalBreaks hd
  | cons c cs ih =>
    unfold counted at ih ⊢
    rw [List.cons_append, List.takeWhile_cons, List.takeWhile_cons]
    split
    · rw [totalBreaks, totalBreaks, ih]
    · rfl

theorem counted_append_of_le {cs : List Cut} {x : Nat} (h : ∀ c ∈ cs, c.position ≤ x)
    (ds : List Cut) : counted (cs ++ ds) x = totalBreaks cs + counted ds x := by
  unfold counted
  rw [List.takeWhile_append_of_pos fun c hc => decide_eq_true (h c hc), totalBreaks_append]

theorem counted_cuts_add (position offset x : Nat) (gs : List Segment) :
    counted (cuts (position + offset) gs) (x + offset) = counted (cuts position gs) x := by
  induction gs generalizing position with
  | nil => rfl
  | cons g gs ih =>
    have hi := ih (position + g.kept.length)
    have hp : position + offset + g.kept.length = position + g.kept.length + offset := by omega
    rw [cuts, cuts, hp]
    split
    · unfold counted at hi ⊢
      rw [List.takeWhile_cons, List.takeWhile_cons]
      simp only [Nat.add_le_add_iff_right]
      split
      · rw [totalBreaks, totalBreaks, hi]
      · rfl
    · exact hi

theorem position_of_mem_cuts {c : Cut} {position : Nat} {gs : List Segment}
    (h : c ∈ cuts position gs) :
    position ≤ c.position ∧ c.position ≤ position + (keptText gs).length := by
  obtain ⟨xs, g, ys, rfl, hp, -⟩ := mem_cuts h
  rw [hp, keptText_append, List.length_append]
  omega

end Counting

section Assigning

theorem length_assign (line offset shift : Nat) (pending : List Cut) (ls : List (List Char)) :
    (LineMap.assign line offset shift pending ls).length = ls.length := by
  induction ls generalizing line offset shift pending with
  | nil => rfl
  | cons l ls ih => rw [LineMap.assign, List.length_cons, List.length_cons, ih]

theorem assign_congr {cs cs' : List Cut} {ls ls' : List (List Char)} (hlen : ls.length = ls'.length)
    (h : ∀ i l l', ls[i]? = some l → ls'[i]? = some l' →
      counted cs (width (ls.take i) + indent l) = counted cs' (width (ls'.take i) + indent l')) :
    LineMap.assign 1 0 0 cs ls = LineMap.assign 1 0 0 cs' ls' := by
  refine List.ext_getElem? fun i => ?_
  by_cases hi : i < ls.length
  · have hl := List.getElem?_eq_getElem hi
    have hl' := List.getElem?_eq_getElem (hlen ▸ hi)
    have he := h i _ _ hl hl'
    rw [getElem?_assign hl, getElem?_assign hl', Nat.zero_add, Nat.zero_add]
    exact congrArg (fun n => some (1 + i + 0 + n)) he
  · have hn := Nat.le_of_not_lt hi
    rw [List.getElem?_eq_none (by rwa [length_assign]),
      List.getElem?_eq_none (by rwa [length_assign, ← hlen])]

theorem width_cons (l : List Char) (ls : List (List Char)) :
    width (l :: ls) = l.length + 1 + width ls := rfl

theorem width_take_lt {ls : List (List Char)} {i : Nat} {l : List Char} (h : ls[i]? = some l) :
    width (ls.take i) + l.length < width ls := by
  induction ls generalizing i with
  | nil => cases h
  | cons m ls ih =>
    cases i with
    | zero =>
      cases h
      rw [List.take_zero, width_cons]
      change 0 + l.length < _
      omega
    | succ i =>
      have := ih (i := i) h
      rw [List.take_succ_cons, width_cons, width_cons]
      omega

theorem width_append (ls ms : List (List Char)) : width (ls ++ ms) = width ls + width ms := by
  rw [width, List.map_append, List.sum_append]
  rfl

theorem getElem?_below (D E : List (List Char)) (l : List Char) (j : Nat) :
    (D ++ l :: E)[D.length + j + 1]? = E[j]? := by
  rw [Nat.add_assoc, List.getElem?_append_right (Nat.le_add_right _ _), Nat.add_sub_cancel_left,
    List.getElem?_cons_succ]

theorem width_below (D E : List (List Char)) (l : List Char) (j : Nat) :
    width ((D ++ l :: E).take (D.length + j + 1)) = width D + (l.length + 1 + width (E.take j)) := by
  rw [Nat.add_assoc, List.take_length_add_append, List.take_succ_cons, width_append, width_cons]

theorem indent_append {c : Char} (hc : isBlank c = false) (a r r' : List Char) :
    indent (a ++ c :: r) = indent (a ++ c :: r') ∧ indent (a ++ c :: r) ≤ a.length := by
  have := length_skipBlanks_le a
  unfold indent
  rw [skipBlanks_append_cons hc, skipBlanks_append_cons hc]
  simp only [List.length_append, List.length_cons]
  omega

end Assigning

section Literals

variable {gs hs : List Segment} {c : Char} {t t' : List Char}

theorem cuts_literal (gs hs : List Segment) (t : List Char) :
    cuts 0 (gs ++ .literal t :: hs) =
      cuts 0 gs ++ cuts (0 + ((keptText gs).length + t.length)) hs := by
  have hl : (Segment.literal t).lostBreaks = 0 := Nat.sub_self _
  rw [cuts_append, cuts, if_neg (by rw [hl]; decide), Nat.add_assoc]
  rfl

theorem counted_before {x : Nat} (hx : x < (keptText gs).length + t.length) :
    counted (cuts 0 (gs ++ .literal t :: hs)) x = counted (cuts 0 gs) x := by
  rw [cuts_literal]
  refine counted_append_of_lt (fun d hd => ?_) _
  have := (position_of_mem_cuts hd).1
  omega

theorem counted_behind (gs hs : List Segment) (t : List Char) (x : Nat) :
    counted (cuts 0 (gs ++ .literal t :: hs)) (x + ((keptText gs).length + t.length)) =
      totalBreaks (cuts 0 gs) + counted (cuts 0 hs) x := by
  rw [cuts_literal, counted_append_of_le, counted_cuts_add]
  intro d hd
  have := (position_of_mem_cuts hd).2
  omega

theorem splitLines_literal (gs hs : List Segment) (ht : '\n' ∉ t) :
    splitLines (keptText (gs ++ .literal t :: hs)) = (splitLines (keptText gs)).dropLast ++
      (lineStart (keptText gs) ++ (t ++ lineEnd (keptText hs))) :: (splitLines (keptText hs)).tail := by
  have hk : keptText (gs ++ .literal t :: hs) = keptText gs ++ (t ++ keptText hs) := by
    rw [keptText_append, keptText_cons]
    rfl
  rw [hk, splitLines_middle _ ht]

theorem ofSegments_literal (gs hs : List Segment) (hc : isBlank c = false) (ht : '\n' ∉ c :: t)
    (ht' : '\n' ∉ c :: t') : LineMap.ofSegments (gs ++ .literal (c :: t) :: hs) =
      LineMap.ofSegments (gs ++ .literal (c :: t') :: hs) := by
  rw [LineMap.ofSegments, LineMap.ofSegments, splitLines_literal gs hs ht, splitLines_literal gs hs ht']
  refine congrArg LineMap.mk (assign_congr (by simp) fun i l l' hl hl' => ?_)
  have hw := width_dropLast (keptText gs)
  generalize hD : (splitLines (keptText gs)).dropLast = D at *
  generalize hE : (splitLines (keptText hs)).tail = E at *
  rcases lt_trichotomy i D.length with hi | hi | hi
  · -- A line above the literal.
    rw [List.getElem?_append_left hi] at hl hl'
    obtain rfl : l = l' := Option.some.inj (hl.symm.trans hl')
    have hlt := width_take_lt hl
    have hin : indent l ≤ l.length := Nat.sub_le _ _
    rw [List.take_append_of_le_length hi.le, List.take_append_of_le_length hi.le,
      counted_before (by omega), counted_before (by omega)]
  · -- The line of the literal.
    subst hi
    rw [List.getElem?_append_right (Nat.le_refl _), Nat.sub_self] at hl hl'
    obtain rfl := Option.some.inj hl
    obtain rfl := Option.some.inj hl'
    obtain ⟨he, hin⟩ := indent_append hc (lineStart (keptText gs)) (t ++ lineEnd (keptText hs))
      (t' ++ lineEnd (keptText hs))
    rw [List.take_left, List.take_left, List.cons_append, List.cons_append, ← he]
    rw [counted_before (by simp only [List.length_cons]; omega),
      counted_before (by simp only [List.length_cons]; omega)]
  · -- A line below the literal.
    obtain ⟨j, rfl⟩ := Nat.exists_eq_add_of_lt hi
    rw [getElem?_below] at hl hl'
    obtain rfl : l = l' := Option.some.inj (hl.symm.trans hl')
    have place : ∀ t : List Char,
        width ((D ++ (lineStart (keptText gs) ++ (c :: t ++ lineEnd (keptText hs))) :: E).take
          (D.length + j + 1)) + indent l =
        (lineEnd (keptText hs)).length + 1 + width (E.take j) + indent l +
          ((keptText gs).length + (c :: t).length) := by
      intro t
      rw [width_below]
      simp only [List.length_append, List.length_cons]
      omega
    rw [place, place, counted_behind, counted_behind]

end Literals

end KernelWrap.Source
