import KernelWrap.Declaration.Signature
import KernelWrap.Proofs.Lexeme
import Mathlib.Data.List.Flatten

/-! Texts line by line. The lines of two texts with a line feed between them are those of the first
and then those of the second; so what is matched in a text is matched in its parts, and the number
of a line is the only thing that the lines above it have a say in. -/

namespace KernelWrap.Text

theorem pieces_cons_self (sep : Char) (s : List Char) : pieces sep (sep :: s) = [] :: pieces sep s := by
  rw [pieces]
  split
  · next h => exact absurd h (pieces_ne_nil sep s)
  · next p ps h => rw [if_pos rfl, h]

theorem pieces_of_notMem {sep : Char} {s : List Char} (h : sep ∉ s) : pieces sep s = [s] := by
  induction s with
  | nil => rfl
  | cons c s ih =>
    rw [List.mem_cons, not_or] at h
    rw [pieces, ih h.2]
    exact if_neg fun e => h.1 e.symm

theorem pieces_append (sep : Char) (a b : List Char) :
    pieces sep (a ++ sep :: b) = pieces sep a ++ pieces sep b := by
  induction a with
  | nil => exact pieces_cons_self sep b
  | cons c a ih =>
    rw [List.cons_append, pieces, ih, pieces]
    cases e : pieces sep a with
    | nil => exact absurd e (pieces_ne_nil sep a)
    | cons p ps =>
      simp only [List.cons_append]
      split <;> rfl

theorem notMem_of_mem_pieces {sep : Char} {s p : List Char} (h : p ∈ pieces sep s) : sep ∉ p := by
  induction s generalizing p with
  | nil =>
    rw [pieces, List.mem_singleton] at h
    rw [h]
    exact List.not_mem_nil
  | cons c s ih =>
    rw [pieces] at h
    split at h
    · next e => exact absurd e (pieces_ne_nil sep s)
    · next q qs e =>
      have hq : sep ∉ q := ih (e ▸ List.mem_cons_self)
      split at h
      · rcases List.mem_cons.1 h with rfl | h
        · exact List.not_mem_nil
        · exact ih (e ▸ h)
      · next hc =>
        rcases List.mem_cons.1 h with rfl | h
        · exact List.not_mem_cons_of_ne_of_not_mem (Ne.symm hc) hq
        · exact ih (e ▸ List.mem_cons_of_mem q h)

theorem subset_of_mem_pieces {sep : Char} {s p : List Char} (h : p ∈ pieces sep s) : p ⊆ s := by
  induction s generalizing p with
  | nil =>
    rw [pieces, List.mem_singleton] at h
    exact h ▸ List.Subset.refl _
  | cons c s ih =>
    rw [pieces] at h
    split at h
    · next e => exact absurd e (pieces_ne_nil sep s)
    · next q qs e =>
      have hq : q ⊆ s := ih (e ▸ List.mem_cons_self)
      split at h
      · rcases List.mem_cons.1 h with rfl | h
        · exact List.nil_subset _
        · exact List.subset_cons_of_subset c (ih (e ▸ h))
      · rcases List.mem_cons.1 h with rfl | h
        · exact List.cons_subset_cons c hq
        · exact List.subset_cons_of_subset c (ih (e ▸ List.mem_cons_of_mem q h))

theorem splitLines_line {s : List Char} (h : '\n' ∉ s) : splitLines s = [s] := pieces_of_notMem h

theorem splitLines_append (a b : List Char) :
    splitLines (a ++ '\n' :: b) = splitLines a ++ splitLines b := pieces_append '\n' a b

theorem pieces_induction {P : List Char → Prop} (sep : Char) (last : ∀ a, sep ∉ a → P a)
    (before : ∀ a b, sep ∉ a → P b → P (a ++ sep :: b)) (s : List Char) : P s := by
  induction h : s.length using Nat.strongRecOn generalizing s with
  | _ n ih =>
    by_cases hs : sep ∈ s
    · obtain ⟨a, b, rfl, ha⟩ := List.eq_append_cons_of_mem hs
      refine before a b ha (ih b.length ?_ b rfl)
      rw [← h, List.length_append, List.length_cons]
      omega
    · exact last s hs

theorem exists_pieces_concat (sep : Char) (a : List Char) : ∃ init last,
    ∀ s, sep ∉ s → pieces sep (a ++ s) = init ++ [last ++ s] := by
  induction a using pieces_induction sep with
  | last a ha =>
    exact ⟨[], a, fun s hs => pieces_of_notMem fun h => (List.mem_append.1 h).elim ha hs⟩
  | before a b ha ih =>
    obtain ⟨init, last, h⟩ := ih
    refine ⟨a :: init, last, fun s hs => ?_⟩
    rw [List.append_assoc, List.cons_append, pieces_append, h s hs, pieces_of_notMem ha]
    rfl

theorem lines_induction {P : List Char → Prop} (last : ∀ a, '\n' ∉ a → P a)
    (above : ∀ a b, '\n' ∉ a → P b → P (a ++ '\n' :: b)) (s : List Char) : P s :=
  pieces_induction '\n' last above s

theorem length_splitLines (s : List Char) : (splitLines s).length = countBreaks s + 1 := by
  induction s using lines_induction with
  | last a ha => rw [splitLines_line ha, countBreaks, List.count_eq_zero_of_not_mem ha]; rfl
  | above a b ha ih =>
    rw [splitLines_append, List.length_append, ih, splitLines_line ha, countBreaks, countBreaks,
      List.count_append, List.count_eq_zero_of_not_mem ha, List.count_cons_self]
    simp only [List.length_singleton]
    omega

end KernelWrap.Text

namespace KernelWrap.Declaration
open Text

theorem apart_lineFeed (a b : List Char) : Apart a ('\n' :: b) :=
  apart_of_head fun d hd => by cases hd; decide

theorem lexemes_lineFeed (a b : List Char) : lexemes (a ++ '\n' :: b) = lexemes a ++ lexemes b := by
  rw [lexemes_append (apart_lineFeed a b), lexemes_gap (by decide)]

theorem flatMap_lexemes_splitLines (s : List Char) : (splitLines s).flatMap lexemes = lexemes s := by
  induction s using lines_induction with
  | last a ha => rw [splitLines_line ha, List.flatMap_singleton]
  | above a b ha ih =>
    rw [splitLines_append, List.flatMap_append, ih, splitLines_line ha, List.flatMap_singleton,
      lexemes_lineFeed]

/-- No token of the text is the keyword that begins a declaration. -/
def KernelFree (s : List Char) : Prop := ∀ l ∈ lexemes s, l.kind ≠ .kernel

theorem kernelFree_append {a b : List Char} (h : Apart a b) :
    KernelFree (a ++ b) ↔ KernelFree a ∧ KernelFree b := by
  simp only [KernelFree, lexemes_append h, List.forall_mem_append]

theorem kernelFree_lineFeed {a b : List Char} :
    KernelFree (a ++ '\n' :: b) ↔ KernelFree a ∧ KernelFree b := by
  simp only [KernelFree, lexemes_lineFeed, List.forall_mem_append]

namespace Matched

def append (m m' : Matched) : Matched := ⟨m.kernels ++ m'.kernels, m.skipped ++ m'.skipped⟩

theorem add_append (r : Except ParseError (Option KernelSignature)) (m m' : Matched) :
    (m.append m').add r = (m.add r).append m' := by
  unfold Matched.add
  split <;> rfl

end Matched

def matchFrom (line : Nat) (s : List Char) : Matched := matchLines line (splitLines s)

theorem matchLines_append (line : Nat) (xs ys : List (List Char)) :
    matchLines line (xs ++ ys) = (matchLines line xs).append (matchLines (line + xs.length) ys) := by
  induction xs generalizing line with
  | nil => rfl
  | cons x xs ih =>
    rw [List.cons_append, matchLines, ih, Matched.add_append, ← matchLines, List.length_cons]
    congr 2
    omega

theorem matchFrom_lineFeed (line : Nat) (a b : List Char) :
    matchFrom line (a ++ '\n' :: b) =
      (matchFrom line a).append (matchFrom (line + countBreaks a + 1) b) := by
  rw [matchFrom, splitLines_append, matchLines_append, length_splitLines]
  rfl

theorem fromKernel_eq_nil_iff {s : List Char} :
    fromKernel (tokenize s) = [] ↔ KernelFree s := by
  simp only [fromKernel, List.dropWhile_eq_nil_iff, KernelFree, lexemes, List.forall_mem_map,
    bne_iff_ne]
  rfl

theorem readLine_of_kernelFree {s : List Char} (h : KernelFree s) (line : Nat) :
    readLine s line = .ok none := by
  rw [readLine, readTokens, fromKernel_eq_nil_iff.2 h]

theorem matchFrom_of_kernelFree {s : List Char} (h : KernelFree s) (line : Nat) :
    matchFrom line s = ⟨[], []⟩ := by
  induction s using lines_induction generalizing line with
  | last a ha =>
    rw [matchFrom, splitLines_line ha, matchLines, readLine_of_kernelFree h]
    rfl
  | above a b ha ih =>
    obtain ⟨h₁, h₂⟩ := kernelFree_lineFeed.1 h
    rw [matchFrom_lineFeed, ih h₂, matchFrom, splitLines_line ha, matchLines,
      readLine_of_kernelFree h₁]
    rfl

end KernelWrap.Declaration
