import KernelWrap.Proofs.Reporting

/-! Normalizing a text with a quote in it. A quote is no blank and no part of a word or of what a
header has before its opening parenthesis. So whatever is behind it, normalizing reaches it in one of
two ways, outside of all headers or inside the parentheses of one; and when the lines of that header
are joined, what is written before the quote depends only on what stands before it. -/

namespace KernelWrap.Source
open Text Declaration

/-- The text ends inside the parentheses of a header. -/
def EndsInHeader (s : List Char) : Prop :=
  ∃ p h, s = p ++ h ∧ endsInWord p = false ∧ IsOpenHeader h

section Openings

theorem exists_append_of_notMem {c : Char} {a b x t : List Char} (hc : c ∉ a)
    (e : x ++ c :: t = a ++ b) : ∃ y, x = a ++ y ∧ b = y ++ c :: t := by
  rcases List.append_eq_append_iff.1 e with ⟨y, ha, hy⟩ | ⟨y, hx, hb⟩
  · cases y with
    | nil => exact ⟨[], by rw [ha, List.append_nil, List.append_nil], hy.symm⟩
    | cons d y =>
      obtain ⟨rfl, -⟩ := List.cons.inj hy
      exact absurd (by rw [ha]; simp) hc
  · exact ⟨y, hx, hb⟩

theorem IsHeader.isOpenHeader {x t : List Char} (h : IsHeader (x ++ '\x22' :: t)) :
    IsOpenHeader x := by
  obtain ⟨s, hs, e⟩ := h
  obtain ⟨a, z, rfl, hz, ha, ho⟩ := hs.exists_stem
  rw [List.append_assoc] at e
  obtain ⟨y, rfl, hy⟩ :=
    exists_append_of_notMem (ha '\x22' (by decide) (by decide) (by decide)) e
  have hyz : y <+: z := by
    rcases List.append_eq_append_iff.1 hy with ⟨v, -, hv⟩ | ⟨v, hv, -⟩
    · cases v with
      | nil => cases hv
      | cons d v => simp at hv
    · exact ⟨v, hv.symm⟩
  exact ho y fun hm => hz (hyz.subset hm)

/-- How normalizing reaches a quote behind a text; `f` gives the result for what is behind the
quote. -/
inductive Reaches (text : List Char) (f : List Char → List Char) : Prop
  | outside (y : List Char) : (∀ z, f z = y ++ '\x22' :: normalizeFrom false z) → Reaches text f
  | inside {p h y : List Char} : text = p ++ h → endsInWord p = false → IsOpenHeader h →
      (∀ c ∈ y.getLast?, isIdentChar c = false) →
      (∀ z, f z = y ++ normalizeFrom false (h ++ '\x22' :: z)) → Reaches text f

theorem afterHeader?_quote (z : List Char) : afterHeader? ('\x22' :: z) = none := by
  rw [Option.eq_none_iff_forall_ne_some]
  intro r hr
  obtain ⟨w, c, t, hw, -, e⟩ := kernelWord_of_afterHeader? hr
  rcases hw with rfl | rfl <;> cases e

theorem afterHeader?_append_quote {x : List Char} (hh : ∀ h, IsHeader h → ¬ h <+: x)
    (ho : ¬ IsOpenHeader x) (z : List Char) : afterHeader? (x ++ '\x22' :: z) = none := by
  rw [Option.eq_none_iff_forall_ne_some]
  intro r hr
  obtain ⟨h, hg, e⟩ := afterHeader?_eq_some_iff.1 hr
  rcases List.append_eq_append_iff.1 e with ⟨v, hv, hz⟩ | ⟨v, hv, -⟩
  · cases v with
    | nil => exact hh h hg ⟨[], by rw [hv, List.append_nil, List.append_nil]⟩
    | cons d v =>
      obtain ⟨rfl, -⟩ := List.cons.inj hz
      exact ho (IsHeader.isOpenHeader (hv ▸ hg))
  · exact hh h hg ⟨v, hv.symm⟩

theorem Reaches.of_plain {before done x : List Char} {c : Char}
    (hc : endsInWord before = false → ∀ z, afterHeader? (c :: x ++ '\x22' :: z) = none)
    (next : Reaches (before ++ [c] ++ x) fun z =>
      done ++ [c] ++ normalizeFrom (endsInWord (before ++ [c])) (x ++ '\x22' :: z)) :
    Reaches (before ++ c :: x) fun z =>
      done ++ normalizeFrom (endsInWord before) (c :: x ++ '\x22' :: z) := by
  have step : ∀ z, normalizeFrom (endsInWord before) (c :: x ++ '\x22' :: z) =
      c :: normalizeFrom (isWordChar c) (x ++ '\x22' :: z) :=
    fun z => normalizeFrom_plain fun hw => hc hw z
  simp only [step]
  simpa only [endsInWord_concat, List.append_assoc, List.singleton_append] using next

theorem Reaches.of_header {before done h x : List Char} (hw : endsInWord before = false)
    (hh : IsHeader h)
    (next : Reaches (before ++ h ++ x) fun z =>
      done ++ collapse h ++ normalizeFrom (endsInWord (before ++ h)) (x ++ '\x22' :: z)) :
    Reaches (before ++ (h ++ x)) fun z =>
      done ++ normalizeFrom (endsInWord before) (h ++ x ++ '\x22' :: z) := by
  have step : ∀ z, normalizeFrom false (h ++ x ++ '\x22' :: z) =
      collapse h ++ normalizeFrom false (x ++ '\x22' :: z) := by
    intro z
    rw [List.append_assoc, normalizeFrom_header (hh.afterHeader? _)]
  rw [hh.endsInWord before] at next
  rw [hw]
  simp only [step]
  simpa only [List.append_assoc] using next

theorem reaches {before done : List Char} (x : List Char)
    (hd : endsInWord before = false → ∀ c ∈ done.getLast?, isIdentChar c = false) :
    Reaches (before ++ x) fun z =>
      done ++ normalizeFrom (endsInWord before) (x ++ '\x22' :: z) := by
  -- The induction is on the length of `x`, since a step may pass a whole header.
  induction hn : x.length using Nat.strongRecOn generalizing before done x with
  | _ n ih =>
    cases x with
    | nil =>
      refine .outside done fun z => ?_
      rw [List.nil_append, normalizeFrom_plain fun _ => afterHeader?_quote z]
      rfl
    | cons c x =>
      have plain : (endsInWord before = false → ∀ z, afterHeader? (c :: x ++ '\x22' :: z) = none) →
          Reaches (before ++ c :: x) fun z =>
            done ++ normalizeFrom (endsInWord before) (c :: x ++ '\x22' :: z) := by
        intro hc
        have hd' : endsInWord (before ++ [c]) = false →
            ∀ d ∈ (done ++ [c]).getLast?, isIdentChar d = false := by
          intro hw
          rw [endsInWord_concat] at hw
          exact forall_getLast?_concat (isIdentChar_of_not_isWordChar hw) done
        have hlt : x.length < n := by
          rw [← hn]
          exact Nat.lt_succ_self _
        exact .of_plain hc (ih x.length hlt x hd' rfl)
      by_cases hw : endsInWord before = false
      · by_cases hh : ∃ h, IsHeader h ∧ h <+: c :: x
        · obtain ⟨h, hh, r, e⟩ := hh
          have hlt : r.length < n := by
            have hlen := congrArg List.length e
            have hpos := List.length_pos_iff.2 hh.ne_nil
            rw [List.length_append, hn] at hlen
            omega
          rw [← e]
          exact .of_header hw hh
            (ih r.length hlt r (fun _ => forall_getLast?_collapse (hh.afterHeader? []) done) rfl)
        · by_cases ho : IsOpenHeader (c :: x)
          · exact .inside rfl hw ho (hd hw) fun z => by rw [hw]
          · exact plain fun _ => afterHeader?_append_quote (fun h hg hp => hh ⟨h, hg, hp⟩) ho
      · exact plain fun h => absurd h hw

end Openings

section Joining

theorem rdropWhile_quote (a z : List Char) :
    (a ++ '\x22' :: z).rdropWhile isBlank = a ++ '\x22' :: z.rdropWhile isBlank := by
  induction z using List.reverseRecOn with
  | nil =>
    rw [List.rdropWhile_concat_neg _ _ _ (by decide)]
    rfl
  | append_singleton z c ih =>
    rw [← List.cons_append, ← List.append_assoc, List.rdropWhile_concat, List.rdropWhile_concat]
    split
    · exact ih
    · rw [List.append_assoc]
      rfl

theorem trim_quote (a z : List Char) :
    trim (a ++ '\x22' :: z) = skipBlanks a ++ '\x22' :: z.rdropWhile isBlank := by
  change (skipBlanks (a ++ '\x22' :: z)).rdropWhile isBlank = _
  rw [skipBlanks_append_cons (by decide), rdropWhile_quote]

theorem tighten_quote (a s : List Char) :
    tighten (a ++ '\x22' :: s) = tighten a ++ '\x22' :: tighten s := by
  rw [tighten, contract_append_cons (by decide) (by decide),
    contract_append_cons (by decide) (by decide), tighten, tighten]

theorem intercalate_quote (ls ms : List (List Char)) (a s : List Char) :
    List.intercalate [' '] (ls ++ (a ++ '\x22' :: s) :: ms) =
      List.intercalate [' '] (ls ++ [a]) ++ '\x22' :: List.intercalate [' '] (s :: ms) := by
  induction ls with
  | nil =>
    have hs : ∀ u v : List Char, u ++ '\x22' :: v = u ++ ['\x22'] ++ v := fun u v => by simp
    rw [List.nil_append, List.nil_append, hs a s, intercalate_append, List.intercalate_singleton, ← hs]
  | cons l ls ih =>
    obtain ⟨m, ns, e⟩ : ∃ m ns, ls ++ [a] = m :: ns := List.exists_cons_of_ne_nil (by simp)
    obtain ⟨m', ns', e'⟩ : ∃ m ns, ls ++ (a ++ '\x22' :: s) :: ms = m :: ns :=
      List.exists_cons_of_ne_nil (by simp)
    rw [List.cons_append, List.cons_append, e, e', List.intercalate_cons_cons,
      List.intercalate_cons_cons, ← e, ← e', ih]
    simp only [List.append_assoc]

theorem joinLines_quote (h : List Char) :
    ∃ u, ∀ t, ∃ r, joinLines (h ++ '\x22' :: t) = u ++ '\x22' :: r := by
  refine ⟨tighten (List.intercalate [' ']
    (((splitLines h).dropLast.map trim).filter (· ≠ []) ++ [skipBlanks (lineStart h)])),
    fun t => ⟨tighten (List.intercalate [' '] ((lineEnd t).rdropWhile isBlank ::
      ((splitLines ('\x22' :: t)).tail.map trim).filter (· ≠ []))), ?_⟩⟩
  have hq : lineEnd ('\x22' :: t) = '\x22' :: lineEnd t := List.takeWhile_cons_of_pos (by decide)
  rw [joinLines, splitLines_seam, hq, List.map_append, List.map_cons, trim_quote, List.filter_append,
    List.filter_cons_of_pos (by simp), intercalate_quote, tighten_quote]

theorem collapse_of_undivided {h : List Char} (hb : countBreaks h = 0) : collapse h = h := by
  rw [collapse, if_pos hb]

theorem collapse_joined {h u r : List Char} {n : Nat} (hb : countBreaks h = n) (hn : n ≠ 0)
    (hj : joinLines h = u ++ r) : collapse h = u ++ (r ++ List.replicate n '\n') := by
  rw [collapse, hb, if_neg hn, hj, List.append_assoc]

theorem collapse_quote {h t t' : List Char} (hh : IsOpenHeader h)
    (hb : countBreaks t' = countBreaks t) : ∃ w x r r' n, IsKernelWord w ∧
      (∀ d ∈ x.head?, isIdentChar d = false) ∧ '\n' ∉ w ++ x ∧ '\n' ∉ r ∧ '\n' ∉ r' ∧
      collapse (h ++ '\x22' :: t) = w ++ x ++ '\x22' :: (r ++ List.replicate n '\n') ∧
      collapse (h ++ '\x22' :: t') = w ++ x ++ '\x22' :: (r' ++ List.replicate n '\n') := by
  have hn : ∀ u, countBreaks u = countBreaks t →
      countBreaks (h ++ '\x22' :: u) = countBreaks h + countBreaks t := by
    intro u hu
    rw [countBreaks_append, ← hu]
    exact congrArg (countBreaks h + ·) (List.count_cons_of_ne (by decide))
  obtain ⟨w, c, x, hw, hc, rfl⟩ := hh.exists_word
  by_cases h0 : countBreaks (w ++ c :: x) + countBreaks t = 0
  · obtain ⟨hx, ht⟩ := Nat.add_eq_zero_iff.1 h0
    refine ⟨w, c :: x, t, t', 0, hw, ?_, List.count_eq_zero.1 hx, List.count_eq_zero.1 ht,
      List.count_eq_zero.1 (hb.trans ht), ?_, ?_⟩
    · rintro d ⟨⟩
      exact isIdentChar_of_isBlank hc
    · rw [collapse_of_undivided ((hn t rfl).trans h0), List.replicate_zero, List.append_nil]
    · rw [collapse_of_undivided ((hn t' hb).trans h0), List.replicate_zero, List.append_nil]
  · obtain ⟨u, hu⟩ := joinLines_quote (w ++ c :: x)
    obtain ⟨r, hr⟩ := hu t
    obtain ⟨r', hr'⟩ := hu t'
    obtain ⟨y, hy, hd⟩ := joinLines_word (x := x ++ '\x22' :: t) hw hc
    rw [← List.cons_append, ← List.append_assoc, hr] at hy
    obtain ⟨x', rfl, rfl⟩ := exists_append_of_notMem (hw.notMem (by decide)) hy
    have hline := lineFeed_notMem_joinLines (w ++ c :: x ++ '\x22' :: t)
    have hline' := lineFeed_notMem_joinLines (w ++ c :: x ++ '\x22' :: t')
    rw [hr] at hline
    rw [hr'] at hline'
    simp only [List.mem_append, List.mem_cons, not_or] at hline hline'
    refine ⟨w, x', r, r', countBreaks (w ++ c :: x) + countBreaks t, hw, ?_, ?_, hline.2.2,
      hline'.2.2, collapse_joined (hn t rfl) h0 hr, collapse_joined (hn t' hb) h0 hr'⟩
    · intro d hm
      refine hd d ?_
      cases x' with
      | nil => cases hm
      | cons e x' => exact hm
    · simp only [List.mem_append, not_or]
      exact hline.1

end Joining

end KernelWrap.Source
