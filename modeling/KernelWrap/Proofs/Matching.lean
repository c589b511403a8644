import KernelWrap.Proofs.Reporting

/-! Matching line by line. A text is matched to what its lines with the keyword are read as, one
entry for each of them. So the entries of a text below another one are its own with higher line
numbers, and lines without the keyword count for nothing but the numbers of the lines below them. -/

namespace KernelWrap.Declaration
open Text

def hasKeyword (l : List Char) : Bool := (tokenize l).any fun t => t.kind == .kernel

def keywordLines (s : List Char) : List (List Char × Nat) :=
  ((endedLines s).zipIdx 1).filter fun l => hasKeyword l.1

namespace Matched

def renumber (f : Nat → Nat) (m : Matched) : Matched :=
  ⟨m.kernels.map fun k => { k with line := f k.line },
    m.skipped.map fun e => { e with line := f e.line }⟩

def lines (m : Matched) : List Nat :=
  m.kernels.map KernelSignature.line ++ m.skipped.map ParseError.line

end Matched

section Readings

def readings : List (List Char × Nat) → Matched
  | [] => ⟨[], []⟩
  | l :: ls => (readings ls).add (readLine l.1 l.2)

theorem hasKeyword_eq_false_iff {l : List Char} : hasKeyword l = false ↔ KernelFree l := by
  rw [hasKeyword, List.any_eq_false, KernelFree, lexemes, List.forall_mem_map]
  simp only [beq_iff_eq]
  rfl

theorem readLine_of_hasKeyword_false {l : List Char} (h : hasKeyword l = false) (line : Nat) :
    readLine l line = .ok none :=
  readLine_of_kernelFree (hasKeyword_eq_false_iff.1 h) line

theorem readLine_ne_none {l : List Char} (h : hasKeyword l = true) (line : Nat) :
    readLine l line ≠ .ok none := by
  have hk : fromKernel (tokenize l) ≠ [] := fun e => by
    rw [hasKeyword_eq_false_iff.2 (fromKernel_eq_nil_iff.1 e)] at h
    cases h
  obtain ⟨t, ts, ht⟩ := List.exists_cons_of_ne_nil hk
  rw [readLine, readTokens, ht]
  dsimp only
  split <;> simp

theorem add_renumber (f : Nat → Nat) (l : List Char) (line : Nat) (m : Matched) :
    (m.renumber f).add (readLine l (f line)) = (m.add (readLine l line)).renumber f := by
  have hf : ∀ ts x, ParseError.ofFailure (f line) ts x =
      { ParseError.ofFailure line ts x with line := f (ParseError.ofFailure line ts x).line } := by
    intro ts x
    unfold ParseError.ofFailure
    split <;> rfl
  unfold readLine readTokens
  split
  · rfl
  · split
    · rfl
    · rw [hf]
      rfl

theorem matchLines_add (line n : Nat) (ls : List (List Char)) :
    matchLines (line + n) ls = (matchLines line ls).renumber (· + n) := by
  induction ls generalizing line with
  | nil => rfl
  | cons l ls ih => rw [matchLines, matchLines, Nat.add_right_comm, ih, ← add_renumber (· + n)]

theorem readings_map (f : Nat → Nat) (ls : List (List Char × Nat)) :
    readings (ls.map fun l => (l.1, f l.2)) = (readings ls).renumber f := by
  induction ls with
  | nil => rfl
  | cons l ls ih => rw [List.map_cons, readings, readings, ih, add_renumber]

theorem readings_filter (ls : List (List Char × Nat)) :
    readings (ls.filter fun l => hasKeyword l.1) = readings ls := by
  induction ls with
  | nil => rfl
  | cons l ls ih =>
    rw [List.filter_cons, readings]
    split
    · rw [readings, ih]
    · next h => rw [ih, readLine_of_hasKeyword_false (eq_false_of_ne_true h), Matched.add]

theorem readings_zipIdx (line : Nat) (ls : List (List Char)) :
    readings (ls.zipIdx line) = matchLines line ls := by
  induction ls generalizing line with
  | nil => rfl
  | cons l ls ih => rw [List.zipIdx_cons, readings, ih, matchLines]

end Readings

section Lines

theorem readLine_withoutReturn (l : List Char) (line : Nat) :
    readLine (withoutReturn l) line = readLine l line := by
  unfold withoutReturn
  split
  · next h =>
    obtain ⟨x, rfl⟩ := List.getLast?_eq_some_iff.1 h
    have hx : tokenize (x ++ ['\r']) = tokenize x := by
      rw [tokenize, tokenizeFrom_append (apart_of_head fun d hd => by cases hd; decide),
        tokenizeFrom_gap (by decide), tokenizeFrom, List.append_nil, tokenize]
    rw [List.dropLast_concat, readLine, readLine, hx]
  · rfl

theorem matchLines_withoutReturn (line : Nat) (ls : List (List Char)) :
    matchLines line (ls.map withoutReturn) = matchLines line ls := by
  induction ls generalizing line with
  | nil => rfl
  | cons l ls ih => rw [List.map_cons, matchLines, matchLines, ih, readLine_withoutReturn]

theorem matchLines_endedLines (line : Nat) (s : List Char) :
    matchLines line (endedLines s) = matchFrom line s := by
  obtain ⟨init, last, h⟩ :=
    (List.eq_nil_or_concat (splitLines s)).resolve_left (pieces_ne_nil '\n' s)
  rw [List.concat_eq_append] at h
  rw [matchFrom, endedLines, h, List.getLast?_concat, List.dropLast_concat, Option.getD_some,
    matchLines_append, matchLines_append, matchLines_withoutReturn, List.length_map]
  congr 1
  cases last with
  | nil => rw [matchLines, readLine_of_kernelFree (s := []) (by simp [KernelFree])]; rfl
  | cons c last => rfl

theorem matchText_eq_readings (s : List Char) : matchText s = readings (keywordLines s) := by
  rw [keywordLines, readings_filter, readings_zipIdx, matchLines_endedLines]
  rfl

end Lines

section Numbers

theorem lines_readings {ls : List (List Char × Nat)} (h : ∀ l ∈ ls, hasKeyword l.1 = true) :
    (readings ls).lines.Perm (ls.map Prod.snd) := by
  induction ls with
  | nil => exact .nil
  | cons l ls ih =>
    obtain ⟨hl, hls⟩ := List.forall_mem_cons.1 h
    obtain ⟨hk, he⟩ := @line_of_readLine l.1 l.2
    rw [readings, List.map_cons]
    unfold Matched.add
    split
    · next k hr =>
      rw [Matched.lines, List.map_cons, hk k hr]
      exact (ih hls).cons l.2
    · next hr => exact absurd hr (readLine_ne_none hl l.2)
    · next e hr =>
      rw [Matched.lines, List.map_cons, he e hr]
      exact List.perm_middle.trans ((ih hls).cons l.2)

theorem sublist_readings (ls : List (List Char × Nat)) :
    ((readings ls).kernels.map KernelSignature.line).Sublist (ls.map Prod.snd) ∧
      ((readings ls).skipped.map ParseError.line).Sublist (ls.map Prod.snd) := by
  induction ls with
  | nil => exact ⟨.slnil, .slnil⟩
  | cons l ls ih =>
    obtain ⟨hk, he⟩ := @line_of_readLine l.1 l.2
    rw [readings, List.map_cons]
    unfold Matched.add
    split
    · next k hr =>
      rw [List.map_cons, hk k hr]
      exact ⟨ih.1.cons_cons l.2, ih.2.cons l.2⟩
    · exact ⟨ih.1.cons l.2, ih.2.cons l.2⟩
    · next e hr =>
      rw [List.map_cons, he e hr]
      exact ⟨ih.1.cons l.2, ih.2.cons_cons l.2⟩

theorem pairwise_keywordLines (s : List Char) :
    ((keywordLines s).map Prod.snd).Pairwise (· < ·) := by
  have hr : (((endedLines s).zipIdx 1).map Prod.snd).Pairwise (· < ·) := by
    rw [List.zipIdx_map_snd]
    exact List.pairwise_lt_range'
  exact hr.sublist (List.filter_sublist.map _)

theorem map_fst_keywordLines (s : List Char) :
    (keywordLines s).map Prod.fst = (endedLines s).filter hasKeyword := by
  rw [keywordLines, ← Function.comp_def hasKeyword Prod.fst, ← List.filter_map, List.zipIdx_map_fst]

theorem renumber_const_readings {ls ms : List (List Char × Nat)}
    (h : ls.map Prod.fst = ms.map Prod.fst) (n : Nat) :
    (readings ls).renumber (fun _ => n) = (readings ms).renumber fun _ => n := by
  have hmap : ∀ xs : List (List Char × Nat),
      xs.map (fun l => (l.1, n)) = (xs.map Prod.fst).map fun t => (t, n) := fun xs => by
    rw [List.map_map]
    rfl
  rw [← readings_map, ← readings_map, hmap, hmap, h]

end Numbers

/-- The entries of a text below another one are those of the one above and then its own, with the
lines above counted in. Each line with the keyword has one entry, and kernels and skipped
declarations each stand in the order of their lines. Lines that are put in or taken out change
nothing but line numbers unless they have the keyword. -/
theorem matchText_lines :
    (∀ a b, matchText (a ++ '\n' :: b) =
      (matchText a).append ((matchText b).renumber (· + (1 + countBreaks a)))) ∧
    (∀ s, (matchText s).lines.Perm ((keywordLines s).map Prod.snd) ∧
      ((matchText s).kernels.map KernelSignature.line).Pairwise (· < ·) ∧
      ((matchText s).skipped.map ParseError.line).Pairwise (· < ·)) ∧
    ∀ s t, (endedLines s).filter hasKeyword = (endedLines t).filter hasKeyword →
      (matchText s).renumber (fun _ => 0) = (matchText t).renumber fun _ => 0 := by
  refine ⟨fun a b => ?_, fun s => ?_, fun s t h => ?_⟩
  · have hb := matchLines_add 1 (1 + countBreaks a) (splitLines b)
    have hab := matchFrom_lineFeed 1 a b
    rw [Nat.add_assoc, Nat.add_comm (countBreaks a)] at hab
    exact hab.trans (congrArg (Matched.append _) hb)
  · have hs := pairwise_keywordLines s
    obtain ⟨hk, he⟩ := sublist_readings (keywordLines s)
    rw [matchText_eq_readings]
    exact ⟨lines_readings fun l hl => (List.mem_filter.1 hl).2, hs.sublist hk, hs.sublist he⟩
  · rw [← map_fst_keywordLines, ← map_fst_keywordLines] at h
    rw [matchText_eq_readings, matchText_eq_readings]
    exact renumber_const_readings h 0

theorem matchText_lines_ended :
    (matchText "kernel void f(int x)\r\nint kernels;\nkernel g".toList).lines = [1, 3] ∧
    (matchText "\n\nkernel void f(int x)\nkernel g\n".toList).lines = [3, 4] ∧
    (matchText "kernel void f(int x)\r\nint kernels;\nkernel g".toList).renumber (fun _ => 0) =
      (matchText "\n\nkernel void f(int x)\nkernel g\n".toList).renumber fun _ => 0 :=
  ⟨by decide +kernel, by decide +kernel, matchText_lines.2.2 _ _ (by decide +kernel)⟩

end KernelWrap.Declaration
