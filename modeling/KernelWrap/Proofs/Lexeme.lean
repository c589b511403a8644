import KernelWrap.Declaration.Token
import Mathlib.Data.List.TakeWhile

/-! Tokens without their places. What a text reads as depends only on its lexemes, and the lexemes
of two texts put one behind the other are those of the first and then those of the second, unless
a word would grow together across the seam. -/

namespace KernelWrap.Declaration
open Text

structure Lexeme where
  kind : TokenKind
  text : List Char
  deriving Repr, DecidableEq

def Token.lexeme (t : Token) : Lexeme := ⟨t.kind, t.text⟩

def lexemes (s : List Char) : List Lexeme := (tokenize s).map Token.lexeme

/-- No word runs across the seam between two texts. -/
def Apart (a b : List Char) : Prop :=
  ∀ c ∈ a.getLast?, ∀ d ∈ b.head?, isIdentChar c = true → isIdentChar d = false

section Characters

theorem isIdentChar_of_isIdentStart {c : Char} (h : isIdentStart c = true) : isIdentChar c = true := by
  simp only [isIdentStart, isIdentChar, Char.isAlphanum, Bool.or_eq_true] at h ⊢
  rcases h with h | h
  · exact .inl (.inl h)
  · exact .inr h

theorem isIdentChar_of_isDigit {c : Char} (h : c.isDigit = true) : isIdentChar c = true := by
  simp only [isIdentChar, Char.isAlphanum, h, Bool.or_true, Bool.true_or]

theorem isGap_cases {P : Char → Prop} (blank : P ' ') (tab : P '\t') (back : P '\r') (line : P '\n')
    (page : P '\x0c') {c : Char} (h : isGap c = true) : P c := by
  simp only [isGap, Bool.or_eq_true, beq_iff_eq] at h
  rcases h with (((rfl | rfl) | rfl) | rfl) | rfl
  · exact blank
  · exact tab
  · exact back
  · exact line
  · exact page

theorem isIdentChar_of_isGap {c : Char} (h : isGap c = true) : isIdentChar c = false :=
  isGap_cases (P := (isIdentChar · = false)) rfl rfl rfl rfl rfl h

theorem isGap_of_isIdentChar {c : Char} (h : isIdentChar c = true) : isGap c = false := by
  cases hg : isGap c with
  | false => rfl
  | true => rw [isIdentChar_of_isGap hg] at h; cases h

theorem isAlpha_iff (c : Char) : c.isAlpha = true ↔
    (65 ≤ c.toNat ∧ c.toNat ≤ 90) ∨ (97 ≤ c.toNat ∧ c.toNat ≤ 122) := by
  have h : c.isAlpha = (decide (c.val ≥ 65 ∧ c.val ≤ 90) || (c.val ≥ 97 && c.val ≤ 122)) := rfl
  rw [h]
  simp only [Bool.or_eq_true, Bool.and_eq_true, decide_eq_true_eq, UInt32.le_iff_toNat_le, ge_iff_le]
  rfl

theorem isIdentStart_iff (c : Char) : isIdentStart c = true ↔
    ((65 ≤ c.toNat ∧ c.toNat ≤ 90) ∨ (97 ≤ c.toNat ∧ c.toNat ≤ 122)) ∨ c = '_' := by
  rw [isIdentStart, Bool.or_eq_true, isAlpha_iff, beq_iff_eq]

theorem isIdentChar_iff (c : Char) : isIdentChar c = true ↔
    (((65 ≤ c.toNat ∧ c.toNat ≤ 90) ∨ (97 ≤ c.toNat ∧ c.toNat ≤ 122)) ∨
      (48 ≤ c.toNat ∧ c.toNat ≤ 57)) ∨ c = '_' := by
  rw [isIdentChar, Char.isAlphanum, Bool.or_eq_true, Bool.or_eq_true, isAlpha_iff,
    Char.isDigit_iff_toNat, beq_iff_eq]
  rfl

theorem toNat_lt_of_isIdentChar {c : Char} (h : isIdentChar c = true) : c.toNat < 128 := by
  rcases (isIdentChar_iff c).1 h with ((⟨-, h⟩ | ⟨-, h⟩) | ⟨-, h⟩) | rfl
  · omega
  · omega
  · omega
  · decide

theorem isWordChar_of_isIdentChar {c : Char} (h : isIdentChar c = true) : isWordChar c = true := by
  rw [isWordChar, if_pos (toNat_lt_of_isIdentChar h), h]

theorem isIdentChar_of_not_isWordChar {c : Char} (h : isWordChar c = false) :
    isIdentChar c = false := by
  cases hi : isIdentChar c with
  | false => rfl
  | true => rw [isWordChar_of_isIdentChar hi] at h; cases h

theorem forall_getLast?_concat {c : Char} (h : isIdentChar c = false) (x : List Char) :
    ∀ d ∈ (x ++ [c]).getLast?, isIdentChar d = false := by
  intro d hd
  rw [List.getLast?_concat] at hd
  cases hd
  exact h

theorem isIdentChar_of_mem {w : List Char} (h : isIdent w = true) {c : Char} (hc : c ∈ w) :
    isIdentChar c = true := by
  cases w with
  | nil => cases h
  | cons d w =>
    simp only [isIdent, Bool.and_eq_true, List.all_eq_true] at h
    rcases List.mem_cons.1 hc with rfl | hc
    · exact isIdentChar_of_isIdentStart h.1
    · exact h.2 c hc

end Characters

section Seams

theorem apart_nil_left (b : List Char) : Apart [] b := by simp [Apart]

theorem apart_nil_right (a : List Char) : Apart a [] := by simp [Apart]

theorem apart_of_head {a b : List Char} (h : ∀ d ∈ b.head?, isIdentChar d = false) : Apart a b :=
  fun _ _ d hd _ => h d hd

theorem apart_of_last {a b : List Char} (h : ∀ c ∈ a.getLast?, isIdentChar c = false) : Apart a b := by
  intro c hc d _ hi
  rw [h c hc] at hi
  cases hi

theorem Apart.of_suffix {a a' b : List Char} (h : Apart a b) (hs : a' <:+ a) : Apart a' b := by
  rcases List.eq_nil_or_concat a' with rfl | ⟨x, c, rfl⟩
  · exact apart_nil_left b
  · obtain ⟨y, rfl⟩ := hs
    intro d hd
    refine h d ?_
    simpa [← List.append_assoc] using hd

theorem Apart.of_prefix {a b b' : List Char} (h : Apart a b) (hs : b' <+: b) : Apart a b' := by
  cases b' with
  | nil => exact apart_nil_right a
  | cons d b' =>
    obtain ⟨y, rfl⟩ := hs
    exact h

theorem takeWhile_append_of_apart {p : Char → Bool} (hp : ∀ c, p c = true → isIdentChar c = true)
    {x : Char} {s b : List Char} (h : Apart (x :: s) b) (hx : isIdentChar x = true) :
    (s ++ b).takeWhile p = s.takeWhile p ∧ (s ++ b).dropWhile p = s.dropWhile p ++ b := by
  induction s generalizing x with
  | nil =>
    cases b with
    | nil => simp
    | cons d b =>
      have hd : p d = false := by
        cases e : p d with
        | false => rfl
        | true =>
          have := h x (by simp) d (by simp) hx
          rw [hp d e] at this
          cases this
      simp [hd]
  | cons c s ih =>
    cases hc : p c with
    | false => simp [hc]
    | true =>
      have := ih (h.of_suffix (List.suffix_cons _ _)) (hp c hc)
      simp [hc, this]

theorem tokenText_append {c : Char} {s b : List Char} (h : Apart (c :: s) b) :
    tokenText c (s ++ b) = tokenText c s ∧ afterToken c (s ++ b) = afterToken c s ++ b := by
  unfold tokenText afterToken
  split
  · next hc =>
    have := takeWhile_append_of_apart (fun _ hp => hp) h (isIdentChar_of_isIdentStart hc)
    simp [this]
  · split
    · next hc =>
      have := takeWhile_append_of_apart (fun _ hp => isIdentChar_of_isDigit hp) h
        (isIdentChar_of_isDigit hc)
      simp [this]
    · simp

end Seams

theorem byteSize_append (a b : List Char) : byteSize (a ++ b) = byteSize a + byteSize b := by
  induction a with
  | nil => simp [byteSize]
  | cons c a ih => simp only [List.cons_append, byteSize, ih, Nat.add_assoc]

theorem utf8Size_of_isGap {c : Char} (h : isGap c = true) : c.utf8Size = 1 :=
  isGap_cases (P := (Char.utf8Size · = 1)) rfl rfl rfl rfl rfl h

theorem exists_of_mem_tokenizeFrom {t : Token} {o : Nat} {s : List Char} (h : t ∈ tokenizeFrom o s) :
    ∃ x c z, s = x ++ c :: z ∧ isGap c = false ∧
      t = ⟨tokenKind c (tokenText c z), tokenText c z, o + byteSize x⟩ := by
  fun_induction tokenizeFrom o s with
  | case1 => cases h
  | case2 o c s hg ih =>
    obtain ⟨x, d, z, rfl, hd, rfl⟩ := ih h
    exact ⟨c :: x, d, z, rfl, hd, by rw [byteSize, utf8Size_of_isGap hg, Nat.add_assoc]⟩
  | case3 o c s hg _ text ih =>
    rcases List.mem_cons.1 h with rfl | h
    · exact ⟨[], c, s, rfl, eq_false_of_ne_true hg, rfl⟩
    · obtain ⟨x, d, z, hs, hd, rfl⟩ := ih h
      refine ⟨text ++ x, d, z, ?_, hd, ?_⟩
      · rw [List.append_assoc, ← hs, tokenText_append_afterToken]
      · rw [byteSize_append, Nat.add_assoc]

theorem mem_tokenizeFrom {t : Token} {o : Nat} {s : List Char} (h : t ∈ tokenizeFrom o s) :
    ∃ x c z, s = x ++ c :: z ∧ t.offset = o + byteSize x ∧ t.kind = tokenKind c t.text := by
  obtain ⟨x, c, z, hs, -, rfl⟩ := exists_of_mem_tokenizeFrom h
  exact ⟨x, c, z, hs, rfl, rfl⟩

theorem afterToken_suffix (c : Char) (s : List Char) : afterToken c s <:+ c :: s :=
  ⟨tokenText c s, tokenText_append_afterToken c s⟩

theorem tokenizeFrom_gap {c : Char} (h : isGap c = true) (o : Nat) (s : List Char) :
    tokenizeFrom o (c :: s) = tokenizeFrom (o + 1) s := by
  rw [tokenizeFrom, if_pos h]

theorem tokenizeFrom_token {c : Char} (h : isGap c = false) (o : Nat) (s : List Char) :
    tokenizeFrom o (c :: s) =
      ⟨tokenKind c (tokenText c s), tokenText c s, o⟩ ::
        tokenizeFrom (o + byteSize (tokenText c s)) (afterToken c s) := by
  rw [tokenizeFrom, if_neg (by simp [h])]

theorem tokenizeFrom_append {a b : List Char} (h : Apart a b) (o : Nat) :
    tokenizeFrom o (a ++ b) = tokenizeFrom o a ++ tokenizeFrom (o + byteSize a) b := by
  fun_induction tokenizeFrom o a with
  | case1 o => simp [byteSize]
  | case2 o c s hg ih =>
    rw [List.cons_append, tokenizeFrom_gap hg, ih (h.of_suffix (List.suffix_cons _ _)), byteSize,
      utf8Size_of_isGap hg, Nat.add_assoc]
  | case3 o c s hg _ text ih =>
    obtain ⟨ht, ha⟩ := tokenText_append h
    have hb : byteSize (c :: s) = byteSize text + byteSize (afterToken c s) := by
      rw [← byteSize_append, tokenText_append_afterToken]
    rw [List.cons_append, tokenizeFrom_token (by simpa using hg), ht, ha,
      ih (h.of_suffix (afterToken_suffix c s)), hb, List.cons_append, Nat.add_assoc]

theorem map_lexeme_tokenizeFrom (o o' : Nat) (s : List Char) :
    (tokenizeFrom o s).map Token.lexeme = (tokenizeFrom o' s).map Token.lexeme := by
  fun_induction tokenizeFrom o s generalizing o' with
  | case1 o => rw [tokenizeFrom]
  | case2 o c s hg ih => rw [tokenizeFrom_gap hg, ih]
  | case3 o c s hg _ text ih =>
    rw [tokenizeFrom_token (by simpa using hg), List.map_cons, List.map_cons, ih]
    rfl

theorem lexemes_append {a b : List Char} (h : Apart a b) :
    lexemes (a ++ b) = lexemes a ++ lexemes b := by
  rw [lexemes, tokenize, tokenizeFrom_append h, List.map_append, map_lexeme_tokenizeFrom _ 0 b]
  rfl

@[simp] theorem lexemes_nil : lexemes [] = [] := by
  rw [lexemes, tokenize, tokenizeFrom, List.map_nil]

theorem lexemes_gap {c : Char} (h : isGap c = true) (s : List Char) :
    lexemes (c :: s) = lexemes s := by
  rw [lexemes, tokenize, tokenizeFrom_gap h, map_lexeme_tokenizeFrom _ 0]
  rfl

theorem lexemes_token {c : Char} (h : isGap c = false) (s : List Char) :
    lexemes (c :: s) = ⟨tokenKind c (tokenText c s), tokenText c s⟩ :: lexemes (afterToken c s) := by
  rw [lexemes, tokenize, tokenizeFrom_token h, List.map_cons, map_lexeme_tokenizeFrom _ 0]
  rfl

theorem lexemes_of_forall_isGap {s : List Char} (h : ∀ c ∈ s, isGap c = true) : lexemes s = [] := by
  induction s with
  | nil => exact lexemes_nil
  | cons c s ih =>
    rw [lexemes_gap (h c List.mem_cons_self), ih fun d hd => h d (List.mem_cons_of_mem c hd)]

theorem tokenizeFrom_word {w : List Char} (h : isIdent w = true) (o : Nat) :
    tokenizeFrom o w = [⟨wordKind w, w, o⟩] := by
  cases w with
  | nil => cases h
  | cons c s =>
    simp only [isIdent, Bool.and_eq_true] at h
    obtain ⟨hc, hs⟩ := h
    have ht : s.takeWhile isIdentChar = s := List.takeWhile_eq_self_iff.2 (List.all_eq_true.1 hs)
    have hd : s.dropWhile isIdentChar = [] := List.dropWhile_eq_nil_iff.2 (List.all_eq_true.1 hs)
    rw [tokenizeFrom_token (isGap_of_isIdentChar (isIdentChar_of_isIdentStart hc))]
    simp only [tokenText, afterToken, tokenKind, hc, if_true, ht, hd, tokenizeFrom]

theorem lexemes_word {w : List Char} (h : isIdent w = true) : lexemes w = [⟨wordKind w, w⟩] := by
  rw [lexemes, tokenize, tokenizeFrom_word h, List.map_singleton]
  rfl

theorem tokenizeFrom_symbol {c : Char} (hg : isGap c = false) (hi : isIdentChar c = false) (o : Nat)
    (s : List Char) :
    tokenizeFrom o (c :: s) = ⟨symbolKind c, [c], o⟩ :: tokenizeFrom (o + c.utf8Size) s := by
  have hs : isIdentStart c = false := by
    cases e : isIdentStart c with
    | false => rfl
    | true => rw [isIdentChar_of_isIdentStart e] at hi; cases hi
  have hd : c.isDigit = false := by
    cases e : c.isDigit with
    | false => rfl
    | true => rw [isIdentChar_of_isDigit e] at hi; cases hi
  rw [tokenizeFrom_token hg]
  simp [tokenText, afterToken, tokenKind, hs, hd, byteSize]

theorem lexemes_symbol {c : Char} (hg : isGap c = false) (hi : isIdentChar c = false)
    (s : List Char) : lexemes (c :: s) = ⟨symbolKind c, [c]⟩ :: lexemes s := by
  rw [lexemes, tokenize, tokenizeFrom_symbol hg hi, List.map_cons, map_lexeme_tokenizeFrom _ 0]
  rfl

end KernelWrap.Declaration
