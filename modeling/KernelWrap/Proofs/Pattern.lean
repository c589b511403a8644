import KernelWrap.Proofs.Header

/-! The pattern of a header, `[__]kernel void NAME ( ... )`, as a grammar of its own: a keyword,
`void`, a name and an opening parenthesis with blanks between them, and behind them any text up to
the first closing parenthesis. A header is found at the start of a text exactly when one stands
there, and it ends where the pattern does. -/

namespace KernelWrap.Source
open Text Declaration

def IsBlankRun (g : List Char) : Prop := g ≠ [] ∧ ∀ c ∈ g, isBlank c = true

/-- A header that is still open: there is no closing parenthesis behind its opening one. -/
inductive IsOpenHeader : List Char → Prop
  | mk {k g₁ g₂ n g₃ z : List Char} : IsKernelWord k → IsBlankRun g₁ → IsBlankRun g₂ →
      isIdent n = true → (∀ c ∈ g₃, isBlank c = true) → ')' ∉ z →
      IsOpenHeader (k ++ (g₁ ++ ("void".toList ++ (g₂ ++ (n ++ (g₃ ++ '(' :: z))))))

def IsHeader (h : List Char) : Prop := ∃ s, IsOpenHeader s ∧ h = s ++ [')']

/-- What an open header has before its parenthesis is made of blanks and words, and behind the
parenthesis any other text may stand. -/
theorem IsOpenHeader.exists_stem {s : List Char} (h : IsOpenHeader s) : ∃ a z, s = a ++ z ∧
    ')' ∉ z ∧ (∀ c, isBlank c = false → isIdentChar c = false → c ≠ '(' → c ∉ a) ∧
    ∀ y, ')' ∉ y → IsOpenHeader (a ++ y) := by
  cases h with
  | @mk k g₁ g₂ n g₃ z hk h₁ h₂ hn h₃ hz =>
    refine ⟨k ++ (g₁ ++ ("void".toList ++ (g₂ ++ (n ++ (g₃ ++ ['(']))))), z, by simp, hz, ?_, ?_⟩
    · intro c hb hi hp
      have blank : ∀ {g : List Char}, (∀ c ∈ g, isBlank c = true) → c ∉ g := fun hg hm => by
        rw [hg c hm] at hb
        cases hb
      have ident : ∀ {w : List Char}, isIdent w = true → c ∉ w := fun hw hm => by
        rw [isIdentChar_of_mem hw hm] at hi
        cases hi
      simp only [List.mem_append, List.mem_singleton, not_or]
      exact ⟨ident hk.isIdent, blank h₁.2, ident (by decide), blank h₂.2, ident hn, blank h₃, hp⟩
    · intro y hy
      simpa only [List.append_assoc, List.cons_append, List.nil_append] using
        IsOpenHeader.mk hk h₁ h₂ hn h₃ hy

theorem IsOpenHeader.append {s z : List Char} (h : IsOpenHeader s) (hz : ')' ∉ z) :
    IsOpenHeader (s ++ z) := by
  obtain ⟨a, y, rfl, hy, -, ho⟩ := h.exists_stem
  rw [List.append_assoc]
  exact ho (y ++ z) fun hm => (List.mem_append.1 hm).elim hy hz

theorem IsOpenHeader.notMem {s : List Char} (h : IsOpenHeader s) : ')' ∉ s := by
  obtain ⟨a, z, rfl, hz, ha, -⟩ := h.exists_stem
  exact fun hm => (List.mem_append.1 hm).elim (ha ')' (by decide) (by decide) (by decide)) hz

theorem IsHeader.endsInWord {h : List Char} (hh : IsHeader h) (x : List Char) :
    Source.endsInWord (x ++ h) = false := by
  obtain ⟨s, -, rfl⟩ := hh
  rw [← List.append_assoc, endsInWord_concat]
  decide

theorem IsHeader.ne_nil {h : List Char} (hh : IsHeader h) : h ≠ [] := by
  obtain ⟨s, -, rfl⟩ := hh
  simp

theorem IsOpenHeader.exists_word {s : List Char} (h : IsOpenHeader s) :
    ∃ w c x, IsKernelWord w ∧ isBlank c = true ∧ s = w ++ c :: x := by
  cases h with
  | @mk k g₁ g₂ n g₃ z hk h₁ h₂ hn h₃ hz =>
    obtain ⟨c, g, rfl⟩ := List.exists_cons_of_ne_nil h₁.1
    exact ⟨k, c, _, hk, h₁.2 c List.mem_cons_self, rfl⟩

section Readers

theorem skipBlanks_append {g s : List Char} (hg : ∀ c ∈ g, isBlank c = true)
    (hs : ∀ c ∈ s.head?, isBlank c = false) : skipBlanks (g ++ s) = s := by
  rw [skipBlanks, List.dropWhile_append_of_pos hg]
  cases s with
  | nil => rfl
  | cons c s => exact List.dropWhile_cons_of_neg (by simp [hs c rfl])

theorem exists_skipBlanks (s : List Char) :
    ∃ g, (∀ c ∈ g, isBlank c = true) ∧ s = g ++ skipBlanks s :=
  ⟨s.takeWhile isBlank, fun _ hc => List.mem_takeWhile_imp hc,
    List.takeWhile_append_dropWhile.symm⟩

theorem afterBlanks?_append {g s : List Char} (hg : IsBlankRun g)
    (hs : ∀ c ∈ s.head?, isBlank c = false) : afterBlanks? (g ++ s) = some s := by
  obtain ⟨hn, hb⟩ := hg
  cases g with
  | nil => exact absurd rfl hn
  | cons c g =>
    rw [List.cons_append, afterBlanks?, if_pos (hb c List.mem_cons_self),
      skipBlanks_append (fun d hd => hb d (List.mem_cons_of_mem c hd)) hs]

theorem blankRun_of_afterBlanks? {s r : List Char} (h : afterBlanks? s = some r) :
    ∃ g, IsBlankRun g ∧ s = g ++ r := by
  cases s with
  | nil => cases h
  | cons c s =>
    rw [afterBlanks?, Option.ite_none_right_eq_some] at h
    obtain ⟨hc, hr⟩ := h
    obtain ⟨g, hg, hs⟩ := exists_skipBlanks s
    rw [Option.some.inj hr] at hs
    exact ⟨c :: g, ⟨List.cons_ne_nil c g, List.forall_mem_cons.2 ⟨hc, hg⟩⟩, congrArg (c :: ·) hs⟩

theorem after?_kernelWord {k : List Char} (h : IsKernelWord k) (s : List Char) :
    after? "kernel".toList ((after? "__".toList (k ++ s)).getD (k ++ s)) = some s := by
  rcases h with rfl | rfl
  · exact after?_append "kernel".toList s
  · exact after?_append "kernel".toList s

theorem afterIdent?_append {n : List Char} (hn : isIdent n = true) {s : List Char}
    (hs : ∀ c ∈ s.head?, isIdentChar c = false) : afterIdent? (n ++ s) = some s := by
  cases n with
  | nil => cases hn
  | cons c n =>
    simp only [isIdent, Bool.and_eq_true, List.all_eq_true] at hn
    rw [List.cons_append, afterIdent?, if_pos hn.1, List.dropWhile_append_of_pos hn.2]
    cases s with
    | nil => rfl
    | cons d s => rw [List.dropWhile_cons_of_neg (by simp [hs d rfl])]

theorem ident_of_afterIdent? {s r : List Char} (h : afterIdent? s = some r) :
    ∃ n, isIdent n = true ∧ s = n ++ r := by
  cases s with
  | nil => cases h
  | cons c s =>
    rw [afterIdent?, Option.ite_none_right_eq_some] at h
    obtain ⟨hc, hr⟩ := h
    have hs : s = s.takeWhile isIdentChar ++ r := by
      rw [← Option.some.inj hr, List.takeWhile_append_dropWhile]
    refine ⟨c :: s.takeWhile isIdentChar, ?_, congrArg (c :: ·) hs⟩
    simp only [isIdent, hc, Bool.true_and, List.all_eq_true]
    exact fun d hd => List.mem_takeWhile_imp hd

theorem afterParens?_append {g z : List Char} (hg : ∀ c ∈ g, isBlank c = true) (hz : ')' ∉ z)
    (r : List Char) : afterParens? (g ++ '(' :: (z ++ ')' :: r)) = some r := by
  have hc : ∀ c ∈ z, (c != ')') = true := fun c hm => bne_iff_ne.2 fun e => hz (e ▸ hm)
  have hd : (z ++ ')' :: r).dropWhile (· != ')') = ')' :: r := by
    rw [List.dropWhile_append_of_pos hc]
    exact List.dropWhile_cons_of_neg (by simp)
  have hp : ∀ c ∈ ('(' :: (z ++ ')' :: r)).head?, isBlank c = false := by
    rintro c ⟨⟩
    decide
  rw [afterParens?, skipBlanks_append hg hp]
  simp only [hd]

theorem parens_of_afterParens? {s r : List Char} (h : afterParens? s = some r) :
    ∃ g z, (∀ c ∈ g, isBlank c = true) ∧ ')' ∉ z ∧ s = g ++ '(' :: (z ++ ')' :: r) := by
  obtain ⟨g, hg, hs⟩ := exists_skipBlanks s
  unfold afterParens? at h
  split at h
  · next t ht =>
    split at h
    · next d r' hd =>
      cases h
      have hc : d = ')' := by
        have := List.head?_dropWhile_not (· != ')') t
        rw [hd] at this
        simpa using this
      have e := List.takeWhile_append_dropWhile (p := (· != ')')) (l := t)
      rw [hd, hc] at e
      refine ⟨g, t.takeWhile (· != ')'), hg, fun hm => ?_, by rw [e, ← ht, ← hs]⟩
      simpa using List.mem_takeWhile_imp hm
    · cases h
  · cases h

end Readers

section Headers

theorem IsHeader.afterHeader? {h : List Char} (hh : IsHeader h) (r : List Char) :
    Source.afterHeader? (h ++ r) = some r := by
  obtain ⟨s, hs, rfl⟩ := hh
  cases hs with
  | @mk k g₁ g₂ n g₃ z hk h₁ h₂ hn h₃ hz =>
    have hi : ∀ c ∈ (g₃ ++ '(' :: (z ++ ')' :: r)).head?, isIdentChar c = false := by
      cases g₃ with
      | nil => rintro c ⟨⟩; decide
      | cons d g => rintro c ⟨⟩; exact isIdentChar_of_isBlank (h₃ d List.mem_cons_self)
    have hb : ∀ t, ∀ c ∈ (n ++ t).head?, isBlank c = false := by
      cases n with
      | nil => cases hn
      | cons d n =>
        rintro t c ⟨⟩
        exact isBlank_of_isIdentChar (isIdentChar_of_mem hn List.mem_cons_self)
    have hv : ∀ t, ∀ c ∈ ("void".toList ++ t).head?, isBlank c = false := by
      rintro t c ⟨⟩
      decide
    simp only [List.append_assoc, List.cons_append, List.nil_append, Source.afterHeader?, bind,
      Option.bind, after?_kernelWord hk, afterBlanks?_append h₁ (hv _), after?_append,
      afterBlanks?_append h₂ (hb _), afterIdent?_append hn hi, afterParens?_append h₃ hz]

theorem isHeader_of_afterHeader? {s r : List Char} (h : afterHeader? s = some r) :
    ∃ h, IsHeader h ∧ s = h ++ r := by
  simp only [afterHeader?, bind, Option.bind_eq_some_iff] at h
  obtain ⟨s₁, e₁, s₂, e₂, s₃, e₃, s₄, e₄, s₅, e₅, e₆⟩ := h
  obtain ⟨k, hk, rfl⟩ := kernelWord_of_after? e₁
  obtain ⟨g₁, h₁, rfl⟩ := blankRun_of_afterBlanks? e₂
  obtain rfl := append_of_after? e₃
  obtain ⟨g₂, h₂, rfl⟩ := blankRun_of_afterBlanks? e₄
  obtain ⟨n, hn, rfl⟩ := ident_of_afterIdent? e₅
  obtain ⟨g₃, z, h₃, hz, rfl⟩ := parens_of_afterParens? e₆
  exact ⟨_, ⟨_, .mk hk h₁ h₂ hn h₃ hz, rfl⟩, by
    simp only [List.append_assoc, List.cons_append, List.nil_append]⟩

theorem afterHeader?_eq_some_iff {s r : List Char} :
    afterHeader? s = some r ↔ ∃ h, IsHeader h ∧ s = h ++ r := by
  refine ⟨isHeader_of_afterHeader?, ?_⟩
  rintro ⟨h, hh, rfl⟩
  exact hh.afterHeader? r

theorem header_eq {s r : List Char} (ha : afterHeader? s = some r) :
    ∃ w c x, IsKernelWord w ∧ isBlank c = true ∧ s = w ++ c :: (x ++ [')']) ++ r := by
  obtain ⟨h, ⟨s, hs, rfl⟩, rfl⟩ := isHeader_of_afterHeader? ha
  obtain ⟨w, c, x, hw, hc, rfl⟩ := hs.exists_word
  refine ⟨w, c, x, hw, hc, ?_⟩
  rw [List.append_assoc w, List.cons_append]

end Headers

end KernelWrap.Source
