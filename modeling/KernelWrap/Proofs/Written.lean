import KernelWrap.Proofs.Closed
import KernelWrap.Proofs.Grammar
import KernelWrap.Proofs.Pattern
import KernelWrap.Proofs.Tokens

/-! Declarations as they are written down: the spellings of their symbols, with blanks and comments
between them. Stripping leaves the spellings with blanks between them, which have the tokens of the
declaration and are a header, on however many lines they stand. -/

namespace KernelWrap.Declaration
open Text Source

def punctuation : List (Char × TokenKind) :=
  [('*', .star), ('(', .openParen), (')', .closeParen), (',', .comma)]

/-- The spellings of a symbol. A word is an identifier that is no keyword. -/
inductive Symbol.Spelled : Symbol → List Char → Prop
  | keyword {w : List Char} {k : TokenKind} : (w, k) ∈ keywords → Spelled (.key k) w
  | mark {c : Char} {k : TokenKind} : (c, k) ∈ punctuation → Spelled (.key k) [c]
  | word {w : List Char} : isIdent w = true → (∀ k ∈ keywords, k.1 ≠ w) → Spelled (.word w) w

inductive Spaced : List (List Char) → List Char → Prop
  | last (w : List Char) : Spaced [w] w
  | next {w w' gap s : List Char} {ws : List (List Char)} : (∀ c ∈ gap, isGap c = true) →
      (isIdent w = true → isIdent w' = true → gap ≠ []) → Spaced (w' :: ws) s →
      Spaced (w :: w' :: ws) (w ++ (gap ++ s))

def IsLayout : Segment → Prop
  | .plain c => isGap c = true
  | .literal _ => False
  | .block b => ¬ ['*', '/'] <:+: b
  | .line b ended => '\n' ∉ b ∧ ended = true

instance : DecidablePred IsLayout
  | .plain c => inferInstanceAs (Decidable (isGap c = true))
  | .literal _ => .isFalse not_false
  | .block b => inferInstanceAs (Decidable (¬ ['*', '/'] <:+: b))
  | .line b ended => inferInstanceAs (Decidable ('\n' ∉ b ∧ ended = true))

/-- Words with blanks and comments between them; two identifiers or keywords have a blank or a line
comment between them. -/
inductive LaidOut : List (List Char) → List Segment → Prop
  | last (w : List Char) : LaidOut [w] (w.map .plain)
  | next {w w' : List Char} {gap gs : List Segment} {ws : List (List Char)} :
      (∀ g ∈ gap, IsLayout g) →
      (isIdent w = true → isIdent w' = true → ∃ g ∈ gap, g.kept ≠ []) → LaidOut (w' :: ws) gs →
      LaidOut (w :: w' :: ws) (w.map .plain ++ (gap ++ gs))

section Words

def IsWord (w : List Char) : Prop := isIdent w = true ∨ ∃ c k, w = [c] ∧ (c, k) ∈ punctuation

theorem punctuation_facts : ∀ p ∈ punctuation, symbolKind p.1 = p.2 ∧ isIdentChar p.1 = false ∧
    isGap p.1 = false ∧ isBlank p.1 = false ∧ p.1 ≠ '\x22' ∧ p.1 ≠ '\x27' ∧ p.1 ≠ '/' := by decide

theorem wordKind_of_notMem {w : List Char} (h : ∀ k ∈ keywords, k.1 ≠ w) : wordKind w = .word := by
  have hn : keywords.lookup w = none := by
    rw [List.lookup_eq_none_iff]
    exact fun k hk => bne_iff_ne.2 fun e => h k hk e.symm
  rw [wordKind, hn, Option.getD_none]

namespace Symbol.Spelled

theorem isWord {s : Symbol} {w : List Char} (h : s.Spelled w) : IsWord w := by
  cases h with
  | keyword hk => exact .inl (isIdent_keyword _ hk).1
  | mark hm => exact .inr ⟨_, _, rfl, hm⟩
  | word hi _ => exact .inl hi

theorem lexemes_eq {s : Symbol} {w : List Char} (h : s.Spelled w) :
    ∃ l, lexemes w = [l] ∧ s.Matches l := by
  cases h with
  | keyword hk =>
    obtain ⟨hi, hw⟩ := isIdent_keyword _ hk
    exact ⟨_, lexemes_word hi, hw⟩
  | @mark c k hm =>
    obtain ⟨hs, hi, hg, -⟩ := punctuation_facts _ hm
    exact ⟨⟨symbolKind c, [c]⟩, by rw [lexemes_symbol hg hi, lexemes_nil], hs⟩
  | word hi hk => exact ⟨_, lexemes_word hi, wordKind_of_notMem hk, rfl⟩

end Symbol.Spelled

theorem IsWord.harmless {w : List Char} (h : IsWord w) {c : Char} (hc : c ∈ w) :
    c ≠ '\x22' ∧ c ≠ '\x27' ∧ c ≠ '/' := by
  rcases h with h | ⟨d, k, rfl, hm⟩
  · have hi := isIdentChar_of_mem h hc
    refine ⟨?_, ?_, ?_⟩ <;> rintro rfl <;> revert hi <;> decide
  · rw [List.mem_singleton.1 hc]
    obtain ⟨-, -, -, -, hd⟩ := punctuation_facts _ hm
    exact hd

theorem IsWord.isBlank {w : List Char} (h : IsWord w) {c : Char} (hc : c ∈ w) :
    isBlank c = false := by
  rcases h with h | ⟨d, k, rfl, hm⟩
  · exact isBlank_of_isIdentChar (isIdentChar_of_mem h hc)
  · rw [List.mem_singleton.1 hc]
    obtain ⟨-, -, -, hb, -⟩ := punctuation_facts _ hm
    exact hb

end Words

section Stripping

theorem isClosed_of_isLayout {g : Segment} (h : IsLayout g) (rest : List Char) :
    g.IsClosed rest := by
  cases g with
  | plain c =>
    have hc : isGap c = true := h
    refine not_opens ?_ ?_ ?_ rest <;> rintro rfl <;> revert hc <;> decide
  | literal t => exact absurd h not_false
  | block b => exact h
  | line b ended => exact ⟨h.1, fun e => absurd (e.symm.trans h.2) (by decide)⟩

theorem closed_of_isLayout {gap : List Segment} (h : ∀ g ∈ gap, IsLayout g) (rest : List Char) :
    Closed rest gap := by
  induction gap with
  | nil => trivial
  | cons g gap ih =>
    exact ⟨isClosed_of_isLayout (h g List.mem_cons_self) _,
      ih fun x hx => h x (List.mem_cons_of_mem g hx)⟩

theorem isGap_of_mem_keptText {gap : List Segment} (h : ∀ g ∈ gap, IsLayout g) :
    ∀ c ∈ keptText gap, isGap c = true := by
  intro c hc
  obtain ⟨g, hg, hm⟩ := List.mem_flatMap.1 hc
  have hl := h g hg
  cases g with
  | plain d =>
    rw [List.mem_singleton.1 hm]
    exact hl
  | literal t => exact absurd hl not_false
  | block b => cases hm
  | line b ended =>
    rw [List.mem_singleton.1 hm]
    decide

theorem LaidOut.closed {ws : List (List Char)} {gs : List Segment} (h : LaidOut ws gs)
    (hw : ∀ w ∈ ws, IsWord w) (rest : List Char) : Closed rest gs := by
  induction h with
  | last w => exact closed_map_plain (fun _ => (hw w List.mem_cons_self).harmless) rest
  | next hg _ _ ih =>
    rw [closed_append, closed_append]
    exact ⟨closed_map_plain (fun _ => (hw _ List.mem_cons_self).harmless) _, closed_of_isLayout hg _,
      ih fun w h => hw w (List.mem_cons_of_mem _ h)⟩

theorem LaidOut.spaced {ws : List (List Char)} {gs : List Segment} (h : LaidOut ws gs) :
    Spaced ws (keptText gs) := by
  induction h with
  | last w =>
    rw [keptText_map_plain]
    exact .last w
  | next hg hs _ ih =>
    rw [keptText_append, keptText_append, keptText_map_plain]
    refine .next (isGap_of_mem_keptText hg) (fun h₁ h₂ => ?_) ih
    obtain ⟨g, hm, hk⟩ := hs h₁ h₂
    exact fun e => hk (List.flatMap_eq_nil_iff.1 e g hm)

end Stripping

section Reading

theorem Spaced.exists_append {w : List Char} {ws : List (List Char)} {s : List Char}
    (h : Spaced (w :: ws) s) : ∃ t, s = w ++ t := by
  cases h with
  | last => exact ⟨[], (List.append_nil w).symm⟩
  | next _ _ _ => exact ⟨_, rfl⟩

theorem Spaced.exists_concat {w : List Char} {ws : List (List Char)} {s : List Char}
    (h : Spaced (ws ++ [w]) s) : ∃ t, s = t ++ w := by
  generalize hx : ws ++ [w] = xs at h
  induction h generalizing ws with
  | last w' =>
    have hl := congrArg List.getLast? hx
    rw [List.getLast?_concat] at hl
    cases hl
    exact ⟨[], rfl⟩
  | @next w₁ w₂ gap s xs _ _ _ ih =>
    cases ws with
    | nil => cases hx
    | cons y ws =>
      obtain ⟨t, rfl⟩ := ih (List.cons.inj hx).2
      exact ⟨w₁ ++ (gap ++ t), by simp only [List.append_assoc]⟩

theorem Spaced.gapsOnly {ws : List (List Char)} {s : List Char} (h : Spaced ws s)
    (hw : ∀ w ∈ ws, IsWord w) : GapsOnly s := by
  have word : ∀ w, IsWord w → GapsOnly w := by
    intro w hw c hc hb
    rw [hw.isBlank hc] at hb
    cases hb
  induction h with
  | last w => exact word w (hw w List.mem_cons_self)
  | next hg _ _ ih =>
    intro c hc hb
    rcases List.mem_append.1 hc with hc | hc
    · exact word _ (hw _ List.mem_cons_self) c hc hb
    rcases List.mem_append.1 hc with hc | hc
    · exact hg c hc
    · exact ih (fun w h => hw w (List.mem_cons_of_mem _ h)) c hc hb

theorem apart_of_isWord {w w' t : List Char} (h : IsWord w) (h' : IsWord w')
    (hn : ¬ (isIdent w = true ∧ isIdent w' = true)) : Apart w (w' ++ t) := by
  rcases h with h | ⟨c, k, rfl, hc⟩
  · rcases h' with h' | ⟨c, k, rfl, hc⟩
    · exact absurd ⟨h, h'⟩ hn
    · exact apart_of_head fun d hd => by
        cases hd
        exact (punctuation_facts _ hc).2.1
  · exact apart_of_last fun d hd => by
      cases hd
      exact (punctuation_facts _ hc).2.1

theorem Spaced.lexemes_eq {ws : List (List Char)} {s : List Char} (h : Spaced ws s)
    (hw : ∀ w ∈ ws, IsWord w) : lexemes s = ws.flatMap lexemes := by
  induction h with
  | last w => rw [List.flatMap_singleton]
  | @next w w' gap s ws hg hn hs ih =>
    have ha : Apart w (gap ++ s) := by
      cases gap with
      | cons c gap =>
        exact apart_of_head fun d hd => by
          cases hd
          exact isIdentChar_of_isGap (hg c List.mem_cons_self)
      | nil =>
        obtain ⟨t, rfl⟩ := hs.exists_append
        rw [List.nil_append]
        refine apart_of_isWord (hw w (by simp)) (hw w' (by simp)) fun ⟨h₁, h₂⟩ => ?_
        exact hn h₁ h₂ rfl
    have hb : Apart gap s := by
      refine apart_of_last fun c hc => isIdentChar_of_isGap (hg c ?_)
      exact List.mem_of_mem_getLast? hc
    rw [lexemes_append ha, lexemes_append hb, lexemes_of_forall_isGap hg, List.nil_append,
      ih fun x hx => hw x (List.mem_cons_of_mem w hx)]
    rfl

theorem matches_of_spaced {ss : List Symbol} {ws : List (List Char)} {s : List Char}
    (h : Spaced ws s) (hw : List.Forall₂ Symbol.Spelled ss ws) :
    List.Forall₂ Symbol.Matches ss (lexemes s) := by
  have hi : ∀ w ∈ ws, IsWord w := by
    intro w hm
    obtain ⟨a, -, hs⟩ := forall₂_mem_right hw hm
    exact hs.isWord
  rw [h.lexemes_eq hi]
  clear h hi
  induction hw with
  | nil => exact .nil
  | cons hs _ ih =>
    obtain ⟨l, hl, hm⟩ := hs.lexemes_eq
    rw [List.flatMap_cons, hl]
    exact .cons hm ih

end Reading

section Headers

theorem Spaced.exists_close {body : List (List Char)} {s : List Char}
    (h : Spaced (body ++ [[')']]) s) (hb : ∀ w ∈ body, ')' ∉ w) :
    ∃ z, s = z ++ [')'] ∧ ')' ∉ z := by
  induction body generalizing s with
  | nil =>
    cases h with
    | last => exact ⟨[], rfl, List.not_mem_nil⟩
  | cons w body ih =>
    obtain ⟨w', ws, e⟩ : ∃ w' ws, body ++ [[')']] = w' :: ws := by
      cases body with
      | nil => exact ⟨_, _, rfl⟩
      | cons x body => exact ⟨_, _, rfl⟩
    rw [List.cons_append, e] at h
    rw [e] at ih
    cases h with
    | @next _ _ gap t _ hg _ ht =>
      obtain ⟨z, rfl, hz⟩ := ih ht fun x hx => hb x (List.mem_cons_of_mem w hx)
      refine ⟨w ++ (gap ++ z), by simp, ?_⟩
      have hgap : ')' ∉ gap := fun hm => by
        have := hg _ hm
        revert this
        decide
      simp only [List.mem_append, not_or]
      exact ⟨hb w List.mem_cons_self, hgap, hz⟩

theorem afterHeader?_of_spaced {k n : List Char} {body : List (List Char)} {s : List Char}
    (hk : IsKernelWord k) (hn : isIdent n = true) (hb : ∀ w ∈ body, ')' ∉ w)
    (h : Spaced (k :: "void".toList :: n :: ['('] :: (body ++ [[')']])) s) (r : List Char) :
    afterHeader? (s ++ r) = some r := by
  -- The gaps in front of `void`, of the name and of the parenthesis.
  obtain _ | @⟨_, _, g₁, s₁, _, hg₁, hn₁, h⟩ := h
  obtain _ | @⟨_, _, g₂, s₂, _, hg₂, hn₂, h⟩ := h
  obtain _ | @⟨_, _, g₃, s₃, _, hg₃, -, h⟩ := h
  have hc : ∃ z, s₃ = '(' :: (z ++ [')']) ∧ ')' ∉ z := by
    obtain ⟨t, ht⟩ := h.exists_append
    rw [← List.cons_append] at h
    obtain ⟨z, hz, hm⟩ := h.exists_close (List.forall_mem_cons.2 ⟨by decide, hb⟩)
    rw [ht] at hz
    cases z with
    | nil => exact absurd (List.cons.inj hz).1 (by decide)
    | cons c z =>
      obtain ⟨rfl, rfl⟩ := List.cons.inj hz
      exact ⟨z, ht, fun e => hm (List.mem_cons_of_mem _ e)⟩
  obtain ⟨z, rfl, hz⟩ := hc
  have isBlank : ∀ {g : List Char}, (∀ c ∈ g, isGap c = true) → ∀ c ∈ g, isBlank c = true :=
    fun hg c hc => isBlank_of_isGap (hg c hc)
  have := IsHeader.afterHeader? ⟨_, .mk hk ⟨hn₁ hk.isIdent (by decide), isBlank hg₁⟩
    ⟨hn₂ (by decide) hn, isBlank hg₂⟩ hn (isBlank hg₃) hz, rfl⟩ r
  simpa only [List.append_assoc, List.cons_append, List.nil_append] using this

theorem notMem_closeParen {p : Parameter} : Symbol.key .closeParen ∉ p.symbols :=
  fun h => kind_ne_closeParen (l := ⟨.closeParen, []⟩) h rfl rfl

theorem closeParen_notMem_parameterSymbols (ps : List Parameter) :
    Symbol.key .closeParen ∉ parameterSymbols ps := by
  fun_induction parameterSymbols ps with
  | case1 => exact List.not_mem_nil
  | case2 p => exact notMem_closeParen
  | case3 p ps _ ih =>
    simp only [List.mem_append, List.mem_cons, not_or]
    exact ⟨notMem_closeParen, by simp, ih⟩

theorem Symbol.Spelled.closeParen_notMem {s : Symbol} {w : List Char} (h : s.Spelled w)
    (hs : s ≠ .key .closeParen) : ')' ∉ w := by
  have hi : isIdent w = true → ')' ∉ w := by
    intro hi hm
    have := isIdentChar_of_mem hi hm
    revert this
    decide
  cases h with
  | keyword hk => exact hi (isIdent_keyword _ hk).1
  | word h _ => exact hi h
  | @mark c k hm =>
    have hp : ∀ p ∈ punctuation, p.1 = ')' → p.2 = .closeParen := by decide
    intro hc
    exact hs (congrArg Symbol.key (hp _ hm (List.mem_singleton.1 hc).symm))

theorem Symbol.Spelled.mem_keywords {w : List Char} {k : TokenKind} (h : Symbol.Spelled (.key k) w)
    (hp : ∀ p ∈ punctuation, p.2 ≠ k) : (w, k) ∈ keywords := by
  cases h with
  | keyword h => exact h
  | mark h => exact absurd rfl (hp _ h)

theorem Symbol.Spelled.kernel {w : List Char} (h : Symbol.Spelled (.key .kernel) w) :
    IsKernelWord w := by
  have hk : ∀ k ∈ keywords, k.2 = .kernel → k.1 = "kernel".toList ∨ k.1 = "__kernel".toList := by
    decide
  exact hk _ (h.mem_keywords (by decide)) rfl

theorem Symbol.Spelled.void {w : List Char} (h : Symbol.Spelled (.key .void) w) :
    w = "void".toList := by
  have hk : ∀ k ∈ keywords, k.2 = .void → k.1 = "void".toList := by decide
  exact hk _ (h.mem_keywords (by decide)) rfl

theorem Symbol.Spelled.paren {w : List Char} {k : TokenKind} {c : Char}
    (h : Symbol.Spelled (.key k) w) (hc : (c, k) ∈ [('(', TokenKind.openParen), (')', .closeParen)]) :
    w = [c] := by
  have hk : ∀ x ∈ keywords, ∀ y ∈ [('(', TokenKind.openParen), (')', .closeParen)], x.2 ≠ y.2 := by
    decide
  have hp : ∀ x ∈ punctuation, ∀ y ∈ [('(', TokenKind.openParen), (')', .closeParen)],
      x.2 = y.2 → x.1 = y.1 := by decide
  cases h with
  | keyword h => exact absurd rfl (hk _ h _ hc)
  | mark h => exact congrArg (fun x => [x]) (hp _ h _ hc rfl)

theorem exists_words {d : DeclaredKernel} {void : Bool} {ws : List (List Char)}
    (h : List.Forall₂ Symbol.Spelled (d.symbols void) ws) :
    ∃ k n body, ws = k :: "void".toList :: n :: ['('] :: (body ++ [[')']]) ∧ IsKernelWord k ∧
      isIdent n = true ∧ ∀ w ∈ body, ')' ∉ w := by
  obtain ⟨k, ws₁, hk, h₁, rfl⟩ := List.forall₂_cons_left_iff.1 h
  obtain ⟨v, ws₂, hv, h₂, rfl⟩ := List.forall₂_cons_left_iff.1 h₁
  obtain ⟨n, ws₃, hn, h₃, rfl⟩ := List.forall₂_cons_left_iff.1 h₂
  obtain ⟨o, ws₄, ho, h₄, rfl⟩ := List.forall₂_cons_left_iff.1 h₃
  obtain ⟨body, ws₅, rfl, hb, h₅⟩ := forall₂_append h₄
  obtain ⟨c, ws₆, hc, h₆, rfl⟩ := List.forall₂_cons_left_iff.1 h₅
  obtain rfl := List.forall₂_nil_left_iff.1 h₆
  rw [hv.void, ho.paren (c := '(') (by simp), hc.paren (c := ')') (by simp)]
  refine ⟨k, n, body, rfl, hk.kernel, ?_, ?_⟩
  · cases hn with
    | word hi _ => exact hi
  · intro w hw
    obtain ⟨a, ha, hr⟩ := forall₂_mem_right hb hw
    refine hr.closeParen_notMem fun e => ?_
    rw [e] at ha
    split at ha
    · simp at ha
    · exact closeParen_notMem_parameterSymbols _ ha

end Headers

end KernelWrap.Declaration
