import KernelWrap.Proofs.Lines
import KernelWrap.Source.Header
import Mathlib.Data.List.Basic

/-! Putting a header on one line takes blanks out and line feeds away, and nothing else: the tokens
of the header stay what they were, as long as all its blanks are such that stand between tokens. -/

namespace KernelWrap.Source
open Text Declaration

def GapsOnly (s : List Char) : Prop := ∀ c ∈ s, isBlank c = true → isGap c = true

theorem GapsOnly.of_subset {s t : List Char} (h : GapsOnly t) (hs : s ⊆ t) : GapsOnly s :=
  fun c hc => h c (hs hc)

section Blanks

theorem isBlank_of_isGap {c : Char} (h : isGap c = true) : isBlank c = true :=
  isGap_cases (P := (isBlank · = true)) rfl rfl rfl rfl rfl h

theorem isIdentChar_of_isBlank {c : Char} (h : isBlank c = true) : isIdentChar c = false := by
  cases hi : isIdentChar c with
  | false => rfl
  | true =>
    simp only [isBlank, Bool.or_eq_true, Bool.and_eq_true, decide_eq_true_eq, beq_iff_eq] at h
    rw [isIdentChar_iff] at hi
    rcases hi with ((hi | hi) | hi) | hi
    · omega
    · omega
    · omega
    · subst hi
      revert h
      decide

theorem isBlank_of_isIdentChar {c : Char} (h : isIdentChar c = true) : isBlank c = false := by
  cases hb : isBlank c with
  | false => rfl
  | true => rw [isIdentChar_of_isBlank hb] at h; cases h

theorem skipBlanks_suffix (s : List Char) : skipBlanks s <:+ s := List.dropWhile_suffix _

theorem trim_subset (s : List Char) : trim s ⊆ s := by
  intro c hc
  rw [trim, List.mem_reverse] at hc
  have := (skipBlanks_suffix _).subset hc
  rw [List.mem_reverse] at this
  exact (skipBlanks_suffix s).subset this

theorem lexemes_skipBlanks {s : List Char} (h : GapsOnly s) : lexemes (skipBlanks s) = lexemes s := by
  induction s with
  | nil => rfl
  | cons c s ih =>
    cases hc : isBlank c with
    | false => rw [skipBlanks, List.dropWhile_cons_of_neg (by simp [hc])]
    | true =>
      rw [skipBlanks, List.dropWhile_cons_of_pos hc, lexemes_gap (h c List.mem_cons_self hc)]
      exact ih (h.of_subset (List.subset_cons_self c s))

theorem lexemes_trim {s : List Char} (h : GapsOnly s) : lexemes (trim s) = lexemes s := by
  have hs := h.of_subset (skipBlanks_suffix s).subset
  -- What is trimmed at the end is a run of blanks, and they have no lexemes.
  obtain ⟨z, hz⟩ := skipBlanks_suffix (skipBlanks s).reverse
  have hr : skipBlanks s = trim s ++ z.reverse := by
    rw [trim, ← List.reverse_append, hz, List.reverse_reverse]
  have hb : ∀ c ∈ z.reverse, isGap c = true := by
    intro c hc
    rw [List.mem_reverse] at hc
    have hp : z = (skipBlanks s).reverse.takeWhile isBlank :=
      List.append_cancel_right (hz.trans List.takeWhile_append_dropWhile.symm)
    refine hs c ?_ (List.mem_takeWhile_imp (hp ▸ hc))
    rw [← List.mem_reverse, ← hz]
    exact List.mem_append_left _ hc
  have ha : Apart (trim s) z.reverse :=
    apart_of_head fun d hd => isIdentChar_of_isGap (hb d (List.mem_of_mem_head? hd))
  rw [← lexemes_skipBlanks h, hr, lexemes_append ha, lexemes_of_forall_isGap hb, List.append_nil]

end Blanks

section Collapse

theorem lexemes_blank (a b : List Char) : lexemes (a ++ ' ' :: b) = lexemes a ++ lexemes b := by
  rw [lexemes_append (apart_of_head fun d hd => by cases hd; decide), lexemes_gap (by decide)]

theorem lexemes_intercalate (ls : List (List Char)) :
    lexemes (List.intercalate [' '] ls) = ls.flatMap lexemes := by
  induction ls with
  | nil => simp
  | cons l ls ih =>
    cases ls with
    | nil => simp
    | cons m ls =>
      rw [List.intercalate_cons_cons, List.append_assoc, List.singleton_append, lexemes_blank, ih]
      rfl

theorem lexemes_symbol_blank (p s : List Char) {c : Char} (hg : isGap c = false)
    (hi : isIdentChar c = false) : lexemes (p ++ c :: ' ' :: s) = lexemes (p ++ c :: s) := by
  rw [lexemes_append (apart_of_head fun d hd => by cases hd; exact hi),
    lexemes_append (apart_of_head fun d hd => by cases hd; exact hi), lexemes_symbol hg hi,
    lexemes_symbol hg hi, lexemes_gap (by decide)]

theorem lexemes_blank_symbol (p s : List Char) {c : Char} (hi : isIdentChar c = false) :
    lexemes (p ++ ' ' :: c :: s) = lexemes (p ++ c :: s) := by
  rw [lexemes_blank, lexemes_append (apart_of_head fun d hd => by cases hd; exact hi)]

section Contract

variable {a b c : Char}

theorem contract_cons_of_ne {d : Char} (h : d ≠ a) (s : List Char) :
    contract a b c (d :: s) = d :: contract a b c s := by
  cases s with
  | nil => rfl
  | cons e s => rw [contract, if_neg fun he => h he.1]

theorem contract_append {w : List Char} (hw : a ∉ w) (s : List Char) :
    contract a b c (w ++ s) = w ++ contract a b c s := by
  induction w with
  | nil => rfl
  | cons d w ih =>
    obtain ⟨hd, hw⟩ := not_or.1 (mt List.mem_cons.2 hw)
    rw [List.cons_append, contract_cons_of_ne (Ne.symm hd), ih hw, List.cons_append]

theorem contract_append_cons {d : Char} (ha : d ≠ a) (hb : d ≠ b) (u s : List Char) :
    contract a b c (u ++ d :: s) = contract a b c u ++ d :: contract a b c s := by
  fun_induction contract a b c u with
  | case1 x y u h ih => rw [List.cons_append, List.cons_append, contract, if_pos h, ih, List.cons_append]
  | case2 x y u h ih =>
    rw [List.cons_append, List.cons_append, contract, if_neg h, ← List.cons_append, ih,
      List.cons_append]
  | case3 u hu =>
    match u, hu with
    | [], _ => rw [List.nil_append, List.nil_append, contract_cons_of_ne ha]
    | [x], _ =>
      rw [List.cons_append, List.nil_append, contract, if_neg fun h => hb h.2,
        contract_cons_of_ne ha, List.cons_append, List.nil_append]
    | x :: y :: u, hu => exact absurd rfl (hu x y u)

theorem contract_subset (hc : c = a ∨ c = b) (s : List Char) : contract a b c s ⊆ s := by
  fun_induction contract a b c s with
  | case1 x y s h ih =>
    obtain ⟨rfl, rfl⟩ := h
    refine List.cons_subset.2 ⟨?_, List.subset_cons_of_subset _ (List.subset_cons_of_subset _ ih)⟩
    rcases hc with rfl | rfl
    · exact List.mem_cons_self
    · exact List.mem_cons_of_mem _ List.mem_cons_self
  | case2 x y s h ih => exact List.cons_subset_cons x ih
  | case3 s hs => exact List.Subset.refl s

theorem head_contract {P : Char → Prop} (hc : P c) {s : List Char} (hs : ∀ d ∈ s.head?, P d) :
    ∀ d ∈ (contract a b c s).head?, P d := by
  unfold contract
  split
  · split
    · rintro d ⟨⟩
      exact hc
    · exact hs
  · exact hs

theorem lexemes_contract (h : ∀ p s, lexemes (p ++ a :: b :: s) = lexemes (p ++ c :: s))
    (p s : List Char) : lexemes (p ++ contract a b c s) = lexemes (p ++ s) := by
  fun_induction contract a b c s generalizing p with
  | case1 x y s hxy ih =>
    obtain ⟨rfl, rfl⟩ := hxy
    have := ih (p ++ [c])
    rw [h]
    simpa using this
  | case2 x y s hxy ih =>
    have := ih (p ++ [x])
    simpa using this
  | case3 => rfl

end Contract

theorem tighten_subset (s : List Char) : tighten s ⊆ s :=
  List.Subset.trans (contract_subset (.inr rfl) _) (contract_subset (.inl rfl) s)

theorem lexemes_tighten (s : List Char) : lexemes (tighten s) = lexemes s := by
  have hclose := lexemes_contract (fun p s => lexemes_blank_symbol p s (c := ')') (by decide)) []
    (contract '(' ' ' '(' s)
  have hopen := lexemes_contract
    (fun p s => lexemes_symbol_blank p s (c := '(') (by decide) (by decide)) [] s
  exact hclose.trans hopen

theorem mem_intercalate {c : Char} {ls : List (List Char)} (h : c ∈ List.intercalate [' '] ls) :
    c = ' ' ∨ ∃ l ∈ ls, c ∈ l := by
  induction ls with
  | nil => simp at h
  | cons l ls ih =>
    cases ls with
    | nil => exact .inr ⟨l, List.mem_cons_self, by simpa using h⟩
    | cons m ls =>
      rw [List.intercalate_cons_cons, List.append_assoc, List.singleton_append, List.mem_append,
        List.mem_cons] at h
      rcases h with h | h | h
      · exact .inr ⟨l, List.mem_cons_self, h⟩
      · exact .inl h
      · rcases ih h with h | ⟨x, hx, hc⟩
        · exact .inl h
        · exact .inr ⟨x, List.mem_cons_of_mem l hx, hc⟩

theorem mem_line_of_mem_joinLines {c : Char} {h : List Char} (hc : c ∈ joinLines h) :
    c = ' ' ∨ ∃ l ∈ splitLines h, c ∈ l := by
  have hline := tighten_subset _ hc
  refine (mem_intercalate hline).imp_right ?_
  rintro ⟨l, hl, hm⟩
  obtain ⟨x, hx, rfl⟩ := List.mem_map.1 (List.mem_filter.1 hl).1
  exact ⟨x, hx, trim_subset x hm⟩

theorem lineFeed_notMem_joinLines (h : List Char) : '\n' ∉ joinLines h := by
  intro hm
  rcases mem_line_of_mem_joinLines hm with e | ⟨l, hl, hc⟩
  · revert e
    decide
  · exact notMem_of_mem_pieces hl hc

theorem flatMap_filter_ne_nil (ls : List (List Char)) :
    (ls.filter (· ≠ [])).flatMap lexemes = ls.flatMap lexemes := by
  induction ls with
  | nil => rfl
  | cons l ls ih =>
    by_cases hl : l = []
    · subst hl
      simpa using ih
    · rw [List.filter_cons_of_pos (by simpa using hl), List.flatMap_cons, List.flatMap_cons, ih]

theorem lexemes_joinLines {h : List Char} (hg : GapsOnly h) : lexemes (joinLines h) = lexemes h := by
  rw [joinLines, lexemes_tighten, lexemes_intercalate, flatMap_filter_ne_nil,
    ← flatMap_lexemes_splitLines h, List.flatMap_map]
  exact List.flatMap_congr fun l hl => lexemes_trim (hg.of_subset (subset_of_mem_pieces hl))

theorem collapse_eq (h : List Char) (hg : GapsOnly h) :
    ∃ l, collapse h = l ++ List.replicate (countBreaks h) '\n' ∧ '\n' ∉ l ∧
      lexemes l = lexemes h ∧ (countBreaks h = 0 → l = h) := by
  rw [collapse]
  split
  · next hb =>
    refine ⟨h, by rw [hb, List.replicate_zero, List.append_nil], ?_, rfl, fun _ => rfl⟩
    exact List.count_eq_zero.1 hb
  · next hb =>
    exact ⟨joinLines h, rfl, lineFeed_notMem_joinLines h, lexemes_joinLines hg,
      fun e => absurd e hb⟩

end Collapse

section Scanning

theorem isWordChar_of_isBlank {c : Char} (h : isBlank c = true) : isWordChar c = false := by
  rw [isWordChar]
  split
  · exact isIdentChar_of_isBlank h
  · -- Beyond ASCII the blanks are few enough to look up.
    have ht : ∀ n ∈ [0x85, 0xA0, 0x1680, 0x2000, 0x2001, 0x2002, 0x2003, 0x2004, 0x2005, 0x2006,
        0x2007, 0x2008, 0x2009, 0x200A, 0x2028, 0x2029, 0x202F, 0x205F, 0x3000],
        wordRanges.any (fun r => r.1 ≤ n && n ≤ r.2) = false := by decide +kernel
    refine ht c.toNat ?_
    simp only [isBlank, Bool.or_eq_true, Bool.and_eq_true, decide_eq_true_eq, beq_iff_eq] at h
    simp only [List.mem_cons, List.not_mem_nil, or_false]
    omega

def IsKernelWord (w : List Char) : Prop := w = "kernel".toList ∨ w = "__kernel".toList

theorem IsKernelWord.isIdent {w : List Char} (h : IsKernelWord w) : isIdent w = true := by
  rcases h with rfl | rfl <;> decide

theorem IsKernelWord.wordKind {w : List Char} (h : IsKernelWord w) : wordKind w = .kernel := by
  rcases h with rfl | rfl <;> decide

theorem IsKernelWord.isIdentChar {w : List Char} (h : IsKernelWord w) {d : Char} (hd : d ∈ w) :
    isIdentChar d = true := by
  have hw : w.all Text.isIdentChar = true := by
    rcases h with rfl | rfl <;> decide
  exact List.all_eq_true.1 hw d hd

theorem kernelWord_of_after? {s r : List Char}
    (h : after? "kernel".toList ((after? "__".toList s).getD s) = some r) :
    ∃ w, IsKernelWord w ∧ s = w ++ r := by
  have hk := append_of_after? h
  cases e : after? "__".toList s with
  | none =>
    rw [e, Option.getD_none] at hk
    exact ⟨_, .inl rfl, hk⟩
  | some u =>
    rw [e, Option.getD_some] at hk
    refine ⟨_, .inr rfl, ?_⟩
    rw [append_of_after? e, hk]
    rfl

theorem afterBlanks?_eq {s r : List Char} (h : afterBlanks? s = some r) :
    ∃ c x, isBlank c = true ∧ s = c :: (x ++ r) := by
  cases s with
  | nil => cases h
  | cons c s =>
    rw [afterBlanks?, Option.ite_none_right_eq_some] at h
    obtain ⟨x, hx⟩ := skipBlanks_suffix s
    exact ⟨c, x, h.1, by rw [← Option.some.inj h.2, hx]⟩

theorem kernelWord_of_afterHeader? {s r : List Char} (h : afterHeader? s = some r) :
    ∃ w c t, IsKernelWord w ∧ isBlank c = true ∧ s = w ++ c :: t := by
  simp only [afterHeader?, bind, Option.bind_eq_some_iff] at h
  obtain ⟨s₁, h₁, s₂, h₂, -⟩ := h
  obtain ⟨w, hw, rfl⟩ := kernelWord_of_after? h₁
  obtain ⟨c, x, hc, rfl⟩ := afterBlanks?_eq h₂
  exact ⟨w, c, x ++ s₂, hw, hc, rfl⟩

theorem not_kernelFree_of_word {x w t : List Char} (hx : ∀ d ∈ x.getLast?, isIdentChar d = false)
    (hw : IsKernelWord w) (ht : ∀ d ∈ t.head?, isIdentChar d = false) :
    ¬ KernelFree (x ++ (w ++ t)) := by
  intro h
  have hk := ((kernelFree_append (apart_of_head ht)).1 ((kernelFree_append (apart_of_last hx)).1 h).2).1
  rw [KernelFree, lexemes_word hw.isIdent] at hk
  exact hk _ List.mem_cons_self hw.wordKind

def endsInWord (x : List Char) : Bool := (x.getLast?.map isWordChar).getD false

theorem endsInWord_concat (x : List Char) (c : Char) : endsInWord (x ++ [c]) = isWordChar c := by
  simp [endsInWord]

theorem endsInWord_of_blank {x : List Char} (h : ∀ c ∈ x.getLast?, isBlank c = true) :
    endsInWord x = false := by
  rcases List.eq_nil_or_concat x with rfl | ⟨y, c, rfl⟩
  · rfl
  · rw [List.concat_eq_append, endsInWord_concat]
    exact isWordChar_of_isBlank (h c (by simp))

theorem normalizeFrom_nil (b : Bool) : normalizeFrom b [] = [] := by rw [normalizeFrom]

theorem normalizeFrom_plain {b : Bool} {c : Char} {s : List Char}
    (h : b = false → afterHeader? (c :: s) = none) :
    normalizeFrom b (c :: s) = c :: normalizeFrom (isWordChar c) s := by
  rw [normalizeFrom]
  split
  · next r e =>
    cases b with
    | true => simp at e
    | false =>
      rw [h rfl] at e
      simp at e
  · rfl

theorem normalizeFrom_header {h r : List Char} (ha : afterHeader? (h ++ r) = some r) :
    normalizeFrom false (h ++ r) = collapse h ++ normalizeFrom false r := by
  cases h with
  | nil =>
    have := length_of_afterHeader? ha
    simp at this
  | cons c h =>
    rw [List.cons_append] at ha ⊢
    rw [normalizeFrom]
    split
    · next r' e =>
      simp only [Bool.false_eq_true, if_false] at e
      rw [ha] at e
      cases e
      have ht : (c :: (h ++ r)).take ((c :: (h ++ r)).length - r.length) = c :: h := by
        rw [← List.cons_append, List.length_append, Nat.add_sub_cancel, List.take_left]
      simp only [ht]
    · next e =>
      simp only [Bool.false_eq_true, if_false] at e
      rw [ha] at e
      cases e

/-- No header begins in a text without the keyword, if the keyword cannot begin there either and be
completed by what follows. -/
theorem afterHeader?_eq_none {x y r : List Char} (hk : KernelFree (x ++ y)) (hy : y ≠ [])
    (hx : endsInWord x = false) (hr : r = [] ∨ ∀ c ∈ y.getLast?, isIdentChar c = false) :
    afterHeader? (y ++ r) = none := by
  rw [Option.eq_none_iff_forall_ne_some]
  intro z hz
  obtain ⟨w, c, t, hw, hc, e⟩ := kernelWord_of_afterHeader? hz
  have ht : ∀ u, ∀ d ∈ (c :: u).head?, isIdentChar d = false := by
    rintro u d ⟨⟩
    exact isIdentChar_of_isBlank hc
  have hd : ∀ d ∈ x.getLast?, isIdentChar d = false := by
    intro d hd
    have hm : isWordChar d = false := by
      rwa [endsInWord, Option.mem_def.1 hd] at hx
    exact isIdentChar_of_not_isWordChar hm
  rcases hr with rfl | hr
  · rw [List.append_nil] at e
    rw [e] at hk
    exact not_kernelFree_of_word hd hw (ht _) hk
  · -- No word stands at the end of `y`, so the keyword and a character behind it lie in `y`.
    rcases List.eq_nil_or_concat y with rfl | ⟨y', d, rfl⟩
    · exact hy rfl
    · rw [List.concat_eq_append] at hr e hk
      have hd' : d ∉ w := fun hm => by
        have := hr d (by simp)
        rw [hw.isIdentChar hm] at this
        cases this
      rcases List.append_eq_append_iff.1 e with ⟨v, rfl, -⟩ | ⟨v, hv, hv'⟩
      · exact hd' (by simp)
      · cases v with
        | nil => exact hd' (by rw [← List.append_nil w, ← hv]; simp)
        | cons c' v =>
          cases hv'
          rw [hv] at hk
          exact not_kernelFree_of_word hd hw (ht _) hk

theorem normalizeFrom_append {u r : List Char} (hu : KernelFree u)
    (hr : r = [] ∨ ∀ c ∈ u.getLast?, isIdentChar c = false) :
    normalizeFrom false (u ++ r) = u ++ normalizeFrom (endsInWord u) r := by
  -- Induction on what is left of `u`: the reader only knows of the part before whether it ends in a
  -- word, but that no header begins there depends on all of it.
  have key : ∀ y x, u = x ++ y →
      normalizeFrom (endsInWord x) (y ++ r) = y ++ normalizeFrom (endsInWord u) r := by
    intro y
    induction y with
    | nil =>
      intro x hx
      rw [List.append_nil] at hx
      rw [List.nil_append, List.nil_append, hx]
    | cons c y ih =>
      intro x hx
      have hl : r = [] ∨ ∀ d ∈ (c :: y).getLast?, isIdentChar d = false :=
        hr.imp_right fun h d hd => h d (by rw [hx, List.getLast?_append_of_ne_nil _ (by simp)]; exact hd)
      have hn : endsInWord x = false → afterHeader? (c :: (y ++ r)) = none :=
        fun hb => afterHeader?_eq_none (hx ▸ hu) (List.cons_ne_nil c y) hb hl
      rw [List.cons_append, normalizeFrom_plain hn, ← endsInWord_concat x c,
        ih (x ++ [c]) (by rw [hx, List.append_assoc]; rfl), List.cons_append]
  exact key u [] rfl

end Scanning

end KernelWrap.Source
