import KernelWrap.Proofs.Pattern
import KernelWrap.Proofs.Places

/-! Normalizing, step by step. It copies characters and collapses headers, and a header that is
collapsed has its keyword at its start and all its line feeds at its end; so after each step as many
line feeds were written as were read. -/

namespace KernelWrap.Source
open Text Declaration

section Headers

theorem countBreaks_collapse (h : List Char) : countBreaks (collapse h) = countBreaks h := by
  rw [collapse]
  split
  · rfl
  · rw [countBreaks_append, countBreaks_of_notMem (lineFeed_notMem_joinLines h), Nat.zero_add,
      countBreaks, List.count_replicate_self]

end Headers

section Joining

theorem tighten_append {w : List Char} (ho : '(' ∉ w) (hb : ' ' ∉ w) (s : List Char) :
    tighten (w ++ s) = w ++ tighten s := by
  rw [tighten, contract_append ho, contract_append hb, tighten]

theorem head_tighten {s : List Char} (hs : ∀ d ∈ s.head?, isIdentChar d = false) :
    ∀ d ∈ (tighten s).head?, isIdentChar d = false :=
  head_contract (P := fun d => isIdentChar d = false) (by decide)
    (head_contract (P := fun d => isIdentChar d = false) (by decide) hs)

theorem trim_append {w : List Char} (hw : ∀ d ∈ w, isBlank d = false) (hn : w ≠ []) (u : List Char) :
    ∃ v, trim (w ++ u) = w ++ v ∧ v <+: u := by
  have hs : skipBlanks (w ++ u) = w ++ u := by
    cases w with
    | nil => exact absurd rfl hn
    | cons d w => exact List.dropWhile_cons_of_neg (by simp [hw d List.mem_cons_self])
  have ht : trim (w ++ u) = (w ++ u).rdropWhile isBlank := by
    rw [trim, hs]
    rfl
  rw [ht]
  clear hs ht
  induction u using List.reverseRecOn with
  | nil =>
    refine ⟨[], ?_, List.prefix_refl []⟩
    rw [List.append_nil, List.rdropWhile_eq_self_iff]
    exact fun hl => by simp [hw _ (List.getLast_mem hl)]
  | append_singleton u d ih =>
    rw [← List.append_assoc, List.rdropWhile_concat]
    split
    · obtain ⟨v, hv, hp⟩ := ih
      exact ⟨v, hv, hp.trans (List.prefix_append u [d])⟩
    · exact ⟨u ++ [d], List.append_assoc w u [d], List.prefix_refl _⟩

theorem IsKernelWord.isBlank {w : List Char} (hw : IsKernelWord w) :
    ∀ d ∈ w, Text.isBlank d = false := fun _ hd => isBlank_of_isIdentChar (hw.isIdentChar hd)

theorem IsKernelWord.ne_nil {w : List Char} (hw : IsKernelWord w) : w ≠ [] := by
  rintro rfl
  cases hw.isIdent

theorem IsKernelWord.notMem {w : List Char} (hw : IsKernelWord w) {d : Char}
    (hd : Text.isIdentChar d = false) : d ∉ w := fun hm => by
  rw [hw.isIdentChar hm] at hd
  cases hd

theorem intercalate_append (w v : List Char) (ls : List (List Char)) :
    List.intercalate [' '] ((w ++ v) :: ls) = w ++ List.intercalate [' '] (v :: ls) := by
  cases ls with
  | nil => simp
  | cons m ms =>
    rw [List.intercalate_cons_cons, List.intercalate_cons_cons, List.append_assoc, List.append_assoc,
      List.append_assoc]

theorem head_intercalate {v : List Char} (hv : ∀ d ∈ v.head?, isBlank d = true)
    (ls : List (List Char)) :
    ∀ d ∈ (List.intercalate [' '] (v :: ls)).head?, isIdentChar d = false := by
  intro d hd
  cases v with
  | nil =>
    cases ls with
    | nil => simp at hd
    | cons m ms =>
      rw [List.intercalate_cons_cons] at hd
      cases hd
      decide
  | cons e v =>
    have he : d = e := by
      cases ls <;> simp_all [List.intercalate_cons_cons]
    exact isIdentChar_of_isBlank (hv d (by rw [he]; rfl))

theorem joinLines_word {w x : List Char} {c : Char} (hw : IsKernelWord w) (hc : isBlank c = true) :
    ∃ y, joinLines (w ++ c :: x) = w ++ y ∧ ∀ d ∈ y.head?, isIdentChar d = false := by
  obtain ⟨v, hv, z, hz⟩ := trim_append hw.isBlank hw.ne_nil (lineEnd (c :: x))
  have hhead : ∀ d ∈ v.head?, isBlank d = true := by
    intro d hd
    rw [lineEnd, List.takeWhile_cons] at hz
    cases v with
    | nil => cases hd
    | cons e v =>
      cases hd
      split at hz
      · rwa [(List.cons.inj hz).1]
      · cases hz
  have hlines : ((splitLines (w ++ c :: x)).map trim).filter (· ≠ []) =
      (w ++ v) :: ((splitLines (c :: x)).tail.map trim).filter (· ≠ []) := by
    rw [splitLines_head_append (hw.notMem (by decide)), List.map_cons, hv, List.filter_cons_of_pos]
    simp [hw.ne_nil]
  refine ⟨tighten (List.intercalate [' ']
    (v :: ((splitLines (c :: x)).tail.map trim).filter (· ≠ []))), ?_,
    head_tighten (head_intercalate hhead _)⟩
  rw [joinLines, hlines, intercalate_append, tighten_append (hw.notMem (by decide))
    (hw.notMem (by decide))]

theorem collapse_header {h r : List Char} (ha : afterHeader? (h ++ r) = some r) :
    ∃ w x d y, IsKernelWord w ∧ h = w ++ x ∧ isIdentChar d = false ∧ collapse h = w ++ d :: y ∧
      ∀ e ∈ (collapse h).getLast?, isIdentChar e = false := by
  obtain ⟨w, c, x, hw, hc, e⟩ := header_eq ha
  obtain rfl := List.append_cancel_right e
  refine ⟨w, c :: (x ++ [')']), ?_⟩
  rw [collapse]
  split
  · refine ⟨c, x ++ [')'], hw, rfl, isIdentChar_of_isBlank hc, rfl, ?_⟩
    simp only [List.getLast?_cons, List.getLast?_append, Option.some_or, Option.getD_some,
      Option.mem_some]
    rintro e rfl
    decide
  · next hb =>
    obtain ⟨y, hy, hd⟩ := joinLines_word (x := x ++ [')']) hw hc
    obtain ⟨n, hn⟩ := Nat.exists_eq_succ_of_ne_zero hb
    rw [hy, hn, List.append_assoc]
    have hlast : ∀ z : List Char, ∀ e ∈ (z ++ List.replicate n.succ '\n').getLast?,
        isIdentChar e = false := by
      intro z e he
      rw [List.replicate_succ', ← List.append_assoc, List.getLast?_concat] at he
      cases he
      decide
    cases y with
    | nil => exact ⟨'\n', List.replicate n '\n', hw, rfl, by decide, rfl, hlast w⟩
    | cons d y =>
      refine ⟨d, y ++ List.replicate n.succ '\n', hw, rfl, hd d rfl, rfl, ?_⟩
      rw [← List.append_assoc]
      exact hlast (w ++ d :: y)

theorem forall_getLast?_collapse {h r : List Char} (ha : afterHeader? (h ++ r) = some r)
    (x : List Char) : ∀ d ∈ (x ++ collapse h).getLast?, isIdentChar d = false := by
  obtain ⟨w, v, c, y, -, -, -, hy, hlast⟩ := collapse_header ha
  have hne : collapse h ≠ [] := by simp [hy]
  rwa [List.getLast?_append_of_ne_nil _ hne]

theorem collapse_shape (h : List Char) : ∃ l n, collapse h = l ++ List.replicate n '\n' ∧ '\n' ∉ l := by
  rw [collapse]
  split
  · next hb => exact ⟨h, 0, (List.append_nil h).symm, List.count_eq_zero.1 hb⟩
  · exact ⟨_, _, rfl, lineFeed_notMem_joinLines h⟩

end Joining

section Steps

theorem normalize_cases (w : Bool) (s : List Char) :
    s = [] ∨ (∃ c t, s = c :: t ∧ (w = false → afterHeader? (c :: t) = none)) ∨
      ∃ h r, w = false ∧ s = h ++ r ∧ r.length < s.length ∧ afterHeader? (h ++ r) = some r := by
  cases s with
  | nil => exact .inl rfl
  | cons c s =>
    refine .inr ?_
    cases w with
    | true => exact .inl ⟨c, s, rfl, fun e => Bool.noConfusion e⟩
    | false =>
      cases e : afterHeader? (c :: s) with
      | none => exact .inl ⟨c, s, rfl, fun _ => e⟩
      | some r =>
        have hr := length_of_afterHeader? e
        obtain ⟨w, d, x, -, -, hs⟩ := header_eq e
        exact .inr ⟨_, r, rfl, hs, by omega, hs ▸ e⟩

theorem normalize_induction {P : Bool → List Char → Prop} (nil : ∀ w, P w [])
    (plain : ∀ w c s, (w = false → afterHeader? (c :: s) = none) → P (isWordChar c) s → P w (c :: s))
    (header : ∀ h r, afterHeader? (h ++ r) = some r → P false r → P false (h ++ r))
    (w : Bool) (s : List Char) : P w s := by
  induction hn : s.length using Nat.strongRecOn generalizing w s with
  | _ n ih =>
    obtain rfl | ⟨c, t, rfl, h⟩ | ⟨h, r, rfl, rfl, hr, ha⟩ := normalize_cases w s
    · exact nil w
    · exact plain w c t h (ih t.length (by rw [← hn]; exact Nat.lt_succ_self _) _ t rfl)
    · exact header h r ha (ih r.length (hn ▸ hr) false r rfl)

/-- On its way through a text, from a place where `inWord` says whether a word goes on, normalizing
has dealt with its part `a` and has written `a'` for it. -/
inductive Moves : Bool → List Char → List Char → List Char → Prop
  | start (inWord : Bool) (s : List Char) : Moves inWord s [] []
  | plain {inWord : Bool} {c : Char} {s a a' : List Char} :
      (inWord = false → afterHeader? (c :: s) = none) → Moves (isWordChar c) s a a' →
      Moves inWord (c :: s) (c :: a) (c :: a')
  | header {h r a a' : List Char} : afterHeader? (h ++ r) = some r → Moves false r a a' →
      Moves false (h ++ r) (h ++ a) (collapse h ++ a')

theorem Moves.countBreaks_eq {w : Bool} {s a a' : List Char} (h : Moves w s a a') :
    countBreaks a' = countBreaks a := by
  induction h with
  | start => rfl
  | plain _ _ ih => rw [countBreaks, countBreaks, List.count_cons, List.count_cons, ← countBreaks, ih]; rfl
  | header _ _ ih => rw [countBreaks_append, countBreaks_append, countBreaks_collapse, ih]

theorem Moves.rest {w : Bool} {s a a' : List Char} (h : Moves w s a a') :
    ∃ v b, s = a ++ b ∧ normalizeFrom w s = a' ++ normalizeFrom v b := by
  induction h with
  | start w s => exact ⟨w, s, rfl, rfl⟩
  | plain hc _ ih =>
    obtain ⟨v, b, rfl, e⟩ := ih
    exact ⟨v, b, rfl, by rw [normalizeFrom_plain hc, e]; rfl⟩
  | header ha _ ih =>
    obtain ⟨v, b, rfl, e⟩ := ih
    exact ⟨v, b, (List.append_assoc _ _ _).symm, by rw [normalizeFrom_header ha, e, List.append_assoc]⟩

theorem head?_normalizeFrom (w : Bool) (s : List Char) : (normalizeFrom w s).head? = s.head? := by
  obtain rfl | ⟨c, t, rfl, h⟩ | ⟨h, r, rfl, rfl, -, ha⟩ := normalize_cases w s
  · rw [normalizeFrom_nil]
  · rw [normalizeFrom_plain h]
    rfl
  · obtain ⟨u, x, d, y, hu, rfl, -, hy, -⟩ := collapse_header ha
    rw [normalizeFrom_header ha, hy, List.append_assoc, List.append_assoc,
      List.head?_append_of_ne_nil _ hu.ne_nil, List.head?_append_of_ne_nil _ hu.ne_nil]

end Steps

end KernelWrap.Source
