import KernelWrap.Proofs.Collapsing

/-! Headers told by tokens. Whether a header begins a text depends on the tokens of the text alone, as
long as all its blanks are such that stand between tokens: the keyword, `void`, an identifier and a
parenthesis that is closed later on. -/

namespace KernelWrap.Source
open Text Declaration

section Lexemes

theorem lexemes_gaps {g : List Char} (hg : ∀ c ∈ g, isGap c = true) (s : List Char) :
    lexemes (g ++ s) = lexemes s := by
  induction g with
  | nil => rfl
  | cons c g ih =>
    obtain ⟨hc, hg⟩ := List.forall_mem_cons.1 hg
    rw [List.cons_append, lexemes_gap hc, ih hg]

theorem lexemes_word_append {w : List Char} (hw : isIdent w = true) {s : List Char}
    (hs : ∀ d ∈ s.head?, isIdentChar d = false) :
    lexemes (w ++ s) = ⟨wordKind w, w⟩ :: lexemes s := by
  rw [lexemes_append (apart_of_head hs), lexemes_word hw]
  rfl

theorem forall_isGap_of_lexemes_eq_nil {s : List Char} (h : lexemes s = []) :
    ∀ c ∈ s, isGap c = true := by
  induction s with
  | nil => exact nofun
  | cons c s ih =>
    cases hc : isGap c with
    | true =>
      rw [lexemes_gap hc] at h
      exact List.forall_mem_cons.2 ⟨hc, ih h⟩
    | false =>
      rw [lexemes_token hc] at h
      cases h

theorem exists_of_lexemes_cons {s : List Char} {l : Lexeme} {ls : List Lexeme}
    (h : lexemes s = l :: ls) : ∃ g t, s = g ++ (l.text ++ t) ∧ (∀ c ∈ g, isGap c = true) ∧
      lexemes t = ls ∧ (isIdent l.text = true → ∀ d ∈ t.head?, isIdentChar d = false) := by
  induction s with
  | nil =>
    rw [lexemes_nil] at h
    cases h
  | cons c s ih =>
    cases hc : isGap c with
    | true =>
      rw [lexemes_gap hc] at h
      obtain ⟨g, t, rfl, hg, ht⟩ := ih h
      exact ⟨c :: g, t, rfl, List.forall_mem_cons.2 ⟨hc, hg⟩, ht⟩
    | false =>
      rw [lexemes_token hc] at h
      obtain ⟨rfl, rfl⟩ := List.cons.inj h
      refine ⟨[], afterToken c s, (tokenText_append_afterToken c s).symm, nofun, rfl, fun hw => ?_⟩
      have hstart : isIdentStart c = true := by
        have hcons := tokenText_append_afterToken c s
        cases e : tokenText c s with
        | nil => rw [e] at hw; cases hw
        | cons d u =>
          rw [e] at hw hcons
          rw [← (List.cons.inj hcons).1]
          exact (Bool.and_eq_true_iff.1 hw).1
      intro d hd
      rw [afterToken, if_pos hstart] at hd
      have hnot := List.head?_dropWhile_not isIdentChar s
      rw [Option.mem_def.1 hd] at hnot
      simpa using hnot

theorem text_subset_of_mem_lexemes {l : Lexeme} {s : List Char} (h : l ∈ lexemes s) :
    l.text ⊆ s := by
  obtain ⟨t, ht, rfl⟩ := List.mem_map.1 h
  obtain ⟨x, c, z, rfl, -, rfl⟩ := exists_of_mem_tokenizeFrom ht
  intro d hd
  have hmem : d ∈ tokenText c z ++ afterToken c z := List.mem_append_left _ hd
  rw [tokenText_append_afterToken] at hmem
  exact List.mem_append_right x hmem

end Lexemes

def closeLexeme : Lexeme := ⟨.closeParen, [')']⟩

theorem lexemes_close (s : List Char) : lexemes (')' :: s) = closeLexeme :: lexemes s :=
  lexemes_symbol (by decide) (by decide) s

def BeginHeader (ls : List Lexeme) : Prop :=
  ∃ k v n o rest, ls = k :: v :: n :: o :: rest ∧ IsKernelWord k.text ∧ v.text = "void".toList ∧
    isIdent n.text = true ∧ o.text = ['('] ∧ ∃ l ∈ rest, l.text = [')']

section Headers

variable {s h : List Char}

theorem IsBlankRun.isGap {g : List Char} (hg : IsBlankRun g) (hs : GapsOnly s) (hsub : g ⊆ s) :
    ∀ c ∈ g, isGap c = true := fun c hc => hs c (hsub hc) (hg.2 c hc)

theorem IsBlankRun.head {g : List Char} (hg : IsBlankRun g) (s : List Char) :
    ∀ d ∈ (g ++ s).head?, isIdentChar d = false := by
  obtain ⟨c, g, rfl⟩ := List.exists_cons_of_ne_nil hg.1
  rintro d ⟨⟩
  exact isIdentChar_of_isBlank (hg.2 c List.mem_cons_self)

theorem head_of_isIdent {w : List Char} (hw : isIdent w = true) (s : List Char) :
    ∃ c, (w ++ s).head? = some c ∧ isIdentChar c = true := by
  cases w with
  | nil => cases hw
  | cons c w => exact ⟨c, rfl, isIdentChar_of_mem hw List.mem_cons_self⟩

theorem IsHeader.beginHeader (hh : IsHeader h) {r : List Char} (hg : GapsOnly (h ++ r)) :
    BeginHeader (lexemes (h ++ r)) := by
  obtain ⟨s, hs, rfl⟩ := hh
  cases hs with
  | @mk k g₁ g₂ n g₃ z hk h₁ h₂ hn h₃ hz =>
    have hg₁ := h₁.isGap hg fun c hc => by simp [hc]
    have hg₂ := h₂.isGap hg fun c hc => by simp [hc]
    have hg₃ : ∀ c ∈ g₃, isGap c = true := fun c hc => hg c (by simp [hc]) (h₃ c hc)
    have hopen : ∀ d ∈ (g₃ ++ '(' :: (z ++ ')' :: r)).head?, isIdentChar d = false := by
      cases g₃ with
      | nil => rintro d ⟨⟩; decide
      | cons c g => rintro d ⟨⟩; exact isIdentChar_of_isGap (hg₃ c List.mem_cons_self)
    have hclose : lexemes (z ++ ')' :: r) = lexemes z ++ closeLexeme :: lexemes r := by
      rw [lexemes_append (apart_of_head (by rintro d ⟨⟩; decide)), lexemes_close]
    have htext : k ++ (g₁ ++ ("void".toList ++ (g₂ ++ (n ++ (g₃ ++ '(' :: z))))) ++ [')'] ++ r =
        k ++ (g₁ ++ ("void".toList ++ (g₂ ++ (n ++ (g₃ ++ '(' :: (z ++ ')' :: r)))))) := by
      simp only [List.append_assoc, List.cons_append, List.nil_append]
    rw [htext, lexemes_word_append hk.isIdent (h₁.head _), lexemes_gaps hg₁,
      lexemes_word_append (by decide) (h₂.head _), lexemes_gaps hg₂, lexemes_word_append hn hopen,
      lexemes_gaps hg₃, lexemes_symbol (by decide) (by decide), hclose]
    exact ⟨_, _, _, _, _, rfl, hk, rfl, hn, rfl, closeLexeme, by simp, rfl⟩

theorem isBlankRun_of_words {g w s : List Char} (hg : ∀ c ∈ g, isGap c = true)
    (hw : isIdent w = true) (hs : ∀ d ∈ (g ++ (w ++ s)).head?, isIdentChar d = false) :
    IsBlankRun g := by
  refine ⟨?_, fun c hc => isBlank_of_isGap (hg c hc)⟩
  rintro rfl
  obtain ⟨c, hc, hi⟩ := head_of_isIdent hw s
  have hn := hs c hc
  rw [hi] at hn
  cases hn

theorem exists_header_of_beginHeader (hb : ∀ c ∈ s.head?, isGap c = false)
    (hs : BeginHeader (lexemes s)) : ∃ h r, IsHeader h ∧ s = h ++ r := by
  obtain ⟨k, v, n, o, rest, hls, hk, hv, hn, ho, l, hl, hclose⟩ := hs
  obtain ⟨g, s₁, rfl, hg, h₁, hk₁⟩ := exists_of_lexemes_cons hls
  obtain ⟨g₁, s₂, rfl, hg₁, h₂, hv₂⟩ := exists_of_lexemes_cons h₁
  obtain ⟨g₂, s₃, rfl, hg₂, h₃, hn₃⟩ := exists_of_lexemes_cons h₂
  obtain ⟨g₃, s₄, rfl, hg₃, h₄, -⟩ := exists_of_lexemes_cons h₃
  rw [hv] at hk₁ hv₂ hb ⊢
  rw [ho] at hn₃ hv₂ hk₁ hb ⊢
  have hnil : g = [] := by
    cases g with
    | nil => rfl
    | cons c g =>
      have hc := hb c rfl
      rw [hg c List.mem_cons_self] at hc
      cases hc
  have hmem : ')' ∈ s₄ := by
    refine text_subset_of_mem_lexemes (h₄ ▸ hl) ?_
    rw [hclose]
    exact List.mem_cons_self
  obtain ⟨z, r, rfl, hz⟩ := List.eq_append_cons_of_mem hmem
  have hopen : IsOpenHeader (k.text ++ (g₁ ++ ("void".toList ++ (g₂ ++ (n.text ++ (g₃ ++ '(' :: z)))))) :=
    .mk hk (isBlankRun_of_words hg₁ (by decide) (hk₁ hk.isIdent))
      (isBlankRun_of_words hg₂ hn (hv₂ (by decide))) hn
      (fun c hc => isBlank_of_isGap (hg₃ c hc)) hz
  refine ⟨_, r, ⟨_, hopen, rfl⟩, ?_⟩
  subst hnil
  simp only [List.append_assoc, List.cons_append, List.nil_append]

theorem isIdentChar_of_afterHeader? {c : Char} {s r : List Char}
    (h : afterHeader? (c :: s) = some r) : isIdentChar c = true := by
  obtain ⟨w, d, x, hw, -, e⟩ := kernelWord_of_afterHeader? h
  obtain ⟨b, hb, hi⟩ := head_of_isIdent hw.isIdent (d :: x)
  rw [← e] at hb
  cases hb
  exact hi

theorem afterHeader?_congr {c : Char} {t : List Char} (ht : GapsOnly (c :: t))
    (hl : lexemes (c :: t) = lexemes (c :: s))
    (hn : afterHeader? (c :: s) = none) : afterHeader? (c :: t) = none := by
  rw [Option.eq_none_iff_forall_ne_some] at hn ⊢
  intro r hr
  obtain ⟨h, hh, e⟩ := afterHeader?_eq_some_iff.1 hr
  rw [e] at ht hl
  have hbegin : BeginHeader (lexemes (c :: s)) := hl ▸ hh.beginHeader ht
  have hgap : ∀ d ∈ (c :: s).head?, isGap d = false := by
    rintro d ⟨⟩
    exact isGap_of_isIdentChar (isIdentChar_of_afterHeader? hr)
  obtain ⟨g, z, hg, e⟩ := exists_header_of_beginHeader hgap hbegin
  exact hn z (afterHeader?_eq_some_iff.2 ⟨g, hg, e⟩)

end Headers

end KernelWrap.Source
