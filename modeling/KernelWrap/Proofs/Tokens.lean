import KernelWrap.Proofs.Lexeme
import Mathlib.Data.List.Pairwise

/-! What the tokens of a text are. At each of them the text is read by the longest of the spellings
that it goes on with there, and an identifier that is also a keyword is the keyword. The places of the
tokens follow each other and leave out the gap characters and nothing else, so nothing of a text is
lost, and no token is a piece of an identifier. -/

namespace KernelWrap.Declaration
open Text

def marks : List (Char × TokenKind) :=
  [('*', .star), ('(', .openParen), (')', .closeParen), (',', .comma), ('\x7b', .openBrace),
   (';', .semicolon)]

def TokenKind.IsKeyword : TokenKind → Prop
  | .kernel | .void | .unsigned | .space _ | .qualifier _ => True
  | _ => False

instance : DecidablePred TokenKind.IsKeyword
  | .kernel | .void | .unsigned | .space _ | .qualifier _ => .isTrue trivial
  | .star | .openParen | .closeParen | .comma | .openBrace | .semicolon | .word | .number
  | .unknown => .isFalse not_false

inductive Spells : TokenKind → List Char → Prop
  | keyword {w : List Char} {k : TokenKind} : (w, k) ∈ keywords → Spells k w
  | mark {c : Char} {k : TokenKind} : (c, k) ∈ marks → Spells k [c]
  | word {w : List Char} : isIdent w = true → Spells .word w
  | number {w : List Char} : w ≠ [] → (∀ c ∈ w, c.isDigit = true) → Spells .number w

/-- The token that a text begins with. Where no spelling begins, one character is read alone. -/
inductive Begins (s : List Char) : TokenKind → List Char → Prop
  | spelled {k : TokenKind} {w : List Char} : Spells k w → w <+: s →
      (∀ k' w', Spells k' w' → w' <+: s → w'.length ≤ w.length) →
      (∀ k', Spells k' w → k' = k ∨ k' = .word) → Begins s k w
  | unknown {c : Char} : [c] <+: s → isGap c = false → (∀ k w, Spells k w → ¬ w <+: s) →
      Begins s .unknown [c]

def Token.Covers (t : Token) (n : Nat) : Prop := t.offset ≤ n ∧ n < t.stop

section Bytes

variable {a b x y : List Char}

theorem byteSize_eq_zero {s : List Char} (h : byteSize s = 0) : s = [] := by
  cases s with
  | nil => rfl
  | cons c s =>
    have := c.utf8Size_pos
    rw [byteSize] at h
    omega

theorem exists_append_of_byteSize_le (h : a ++ x = b ++ y) (hs : byteSize a ≤ byteSize b) :
    ∃ u, b = a ++ u ∧ x = u ++ y := by
  rcases List.append_eq_append_iff.1 h with ⟨u, rfl, rfl⟩ | ⟨u, rfl, rfl⟩
  · exact ⟨u, rfl, rfl⟩
  · rw [byteSize_append] at hs
    have hu : u = [] := byteSize_eq_zero (by omega)
    subst hu
    exact ⟨[], by simp, rfl⟩

theorem append_inj_of_byteSize (h : a ++ x = b ++ y) (hs : byteSize a = byteSize b) :
    a = b ∧ x = y := by
  obtain ⟨u, rfl, rfl⟩ := exists_append_of_byteSize_le h (Nat.le_of_eq hs)
  rw [byteSize_append] at hs
  have hu : u = [] := byteSize_eq_zero (by omega)
  subst hu
  exact ⟨(List.append_nil a).symm, rfl⟩

theorem size_utf8Encode (s : List Char) : s.utf8Encode.size = byteSize s := by
  induction s with
  | nil => simp [byteSize]
  | cons c s ih =>
    rw [List.utf8Encode_cons, ByteArray.size_append, ih, List.utf8Encode_singleton,
      List.size_toByteArray, String.length_utf8EncodeChar, byteSize]

theorem extract_utf8Encode (x w z : List Char) :
    (x ++ (w ++ z)).utf8Encode.extract (byteSize x) (byteSize x + byteSize w) = w.utf8Encode := by
  rw [List.utf8Encode_append, List.utf8Encode_append, ← size_utf8Encode, ← size_utf8Encode]
  have hbehind := ByteArray.extract_append_size_add (a := x.utf8Encode)
    (b := w.utf8Encode ++ z.utf8Encode) (i := 0) (j := w.utf8Encode.size)
  rw [Nat.add_zero] at hbehind
  rw [hbehind, ByteArray.extract_append_eq_left rfl]

end Bytes

section Spellings

variable {c : Char} {k : TokenKind} {w s z : List Char}

theorem isDigit_of_isIdentStart (h : isIdentStart c = true) : c.isDigit = false := by
  refine eq_false_of_ne_true fun hd => ?_
  have hle : c.toNat ≤ 57 := (Char.isDigit_iff_toNat.1 hd).2
  rcases (isIdentStart_iff c).1 h with (⟨hge, -⟩ | ⟨hge, -⟩) | rfl
  · omega
  · omega
  · exact absurd hle (by decide)

theorem isIdent_keyword : ∀ k ∈ keywords, isIdent k.1 = true ∧ wordKind k.1 = k.2 := by decide

theorem kind_keyword : ∀ k ∈ keywords, k.2.IsKeyword := by decide

theorem marks_facts : ∀ m ∈ marks, isIdentChar m.1 = false ∧ isGap m.1 = false ∧
    symbolKind m.1 = m.2 ∧ ¬ m.2.IsKeyword ∧ m.2 ≠ .word := by decide

theorem lookup_cases {α β : Type} [BEq α] [LawfulBEq α] (table : List (α × β)) (a : α) (e : β) :
    (a, (table.lookup a).getD e) ∈ table ∨
      (∀ b, (a, b) ∉ table) ∧ (table.lookup a).getD e = e := by
  cases h : table.lookup a with
  | none =>
    rw [List.lookup_eq_none_iff] at h
    exact .inr ⟨fun b hb => by simpa using h _ hb, rfl⟩
  | some b =>
    obtain ⟨x, y, rfl, -⟩ := List.lookup_eq_some_iff.1 h
    exact .inl (List.mem_append_right x List.mem_cons_self)

theorem symbolKind_eq_lookup (c : Char) : symbolKind c = (marks.lookup c).getD .unknown := by
  unfold symbolKind marks
  repeat' split
  all_goals simp_all [List.lookup_cons, beq_false_of_ne]

theorem spells_wordKind (h : isIdent w = true) : Spells (wordKind w) w := by
  rcases lookup_cases keywords w .word with hk | ⟨-, hk⟩
  · exact .keyword hk
  · rw [wordKind, hk]
    exact .word h

theorem Spells.cases_head (h : Spells k (c :: w)) :
    (isIdentStart c = true ∧ ∀ d ∈ w, isIdentChar d = true) ∨
      (c.isDigit = true ∧ k = .number ∧ ∀ d ∈ w, d.isDigit = true) ∨ (w = [] ∧ (c, k) ∈ marks) := by
  have hident : isIdent (c :: w) = true → isIdentStart c = true ∧ ∀ d ∈ w, isIdentChar d = true := by
    intro hi
    simpa [isIdent] using hi
  cases h with
  | keyword hk => exact .inl (hident (isIdent_keyword _ hk).1)
  | word hi => exact .inl (hident hi)
  | mark hm => exact .inr (.inr ⟨rfl, hm⟩)
  | number _ hd =>
    obtain ⟨hc, hw⟩ := List.forall_mem_cons.1 hd
    exact .inr (.inl ⟨hc, rfl, hw⟩)

theorem Spells.ne_nil (h : Spells k w) : w ≠ [] := by
  rintro rfl
  cases h with
  | keyword hk => cases (isIdent_keyword _ hk).1
  | word hi => cases hi
  | number hn _ => exact hn rfl

theorem Spells.isGap (h : Spells k w) : ∀ d ∈ w, isGap d = false := by
  intro d hd
  cases h with
  | keyword hk => exact isGap_of_isIdentChar (isIdentChar_of_mem (isIdent_keyword _ hk).1 hd)
  | word hi => exact isGap_of_isIdentChar (isIdentChar_of_mem hi hd)
  | mark hm =>
    rw [List.mem_singleton.1 hd]
    exact (marks_facts _ hm).2.1
  | number _ hn => exact isGap_of_isIdentChar (isIdentChar_of_isDigit (hn d hd))

theorem Spells.isIdent_iff (h : Spells k w) : isIdent w = true ↔ k.IsKeyword ∨ k = .word := by
  cases h with
  | keyword hk => exact iff_of_true (isIdent_keyword _ hk).1 (.inl (kind_keyword _ hk))
  | word hi => exact iff_of_true hi (.inr rfl)
  | @mark c k hm =>
    obtain ⟨hi, -, -, hk, hw⟩ := marks_facts _ hm
    refine iff_of_false ?_ (not_or.2 ⟨hk, hw⟩)
    intro hc
    rw [isIdentChar_of_mem hc List.mem_cons_self] at hi
    cases hi
  | number hn hd =>
    refine iff_of_false ?_ (by simp [TokenKind.IsKeyword])
    intro hi
    cases w with
    | nil => cases hi
    | cons c w =>
      have hc : c.isDigit = true := hd c List.mem_cons_self
      simp only [isIdent, Bool.and_eq_true] at hi
      rw [isDigit_of_isIdentStart hi.1] at hc
      cases hc

theorem Spells.eq_wordKind (h : Spells k w) (hi : isIdent w = true) : k = wordKind w ∨ k = .word := by
  rcases h.isIdent_iff.1 hi with hk | hk
  · cases h with
    | keyword hk => exact .inl (isIdent_keyword _ hk).2.symm
    | word => exact .inr rfl
    | number => exact hk.elim
    | mark hm => exact absurd hk (marks_facts _ hm).2.2.2.1
  · exact .inr hk

theorem length_le_takeWhile {p : Char → Bool} (h : c :: w <+: c :: z) (hp : ∀ d ∈ w, p d = true) :
    (c :: w).length ≤ (c :: z.takeWhile p).length := by
  obtain ⟨y, rfl⟩ := (List.prefix_cons_inj c).1 h
  rw [List.takeWhile_append_of_pos hp, List.length_cons, List.length_cons, List.length_append]
  omega

theorem begins_word (hc : isIdentStart c = true) (z : List Char) :
    Begins (c :: z) (wordKind (c :: z.takeWhile isIdentChar)) (c :: z.takeWhile isIdentChar) := by
  have hi : isIdent (c :: z.takeWhile isIdentChar) = true := by
    rw [isIdent, hc, List.all_takeWhile, Bool.and_self]
  refine .spelled (spells_wordKind hi) ?_ ?_ ?_
  · exact (List.prefix_cons_inj c).2 (List.takeWhile_prefix isIdentChar)
  · intro k w hs hw
    cases w with
    | nil => exact absurd rfl hs.ne_nil
    | cons d w =>
      obtain rfl : d = c := (List.cons_prefix_cons.1 hw).1
      rcases hs.cases_head with ⟨-, hd⟩ | ⟨hd, -⟩ | ⟨-, hm⟩
      · exact length_le_takeWhile hw hd
      · rw [isDigit_of_isIdentStart hc] at hd
        cases hd
      · have hn := (marks_facts _ hm).1
        rw [isIdentChar_of_isIdentStart hc] at hn
        cases hn
  · intro k hs
    exact hs.eq_wordKind hi

theorem begins_number (hc : c.isDigit = true) (z : List Char) :
    Begins (c :: z) .number (c :: z.takeWhile Char.isDigit) := by
  have hall : ∀ d ∈ c :: z.takeWhile Char.isDigit, d.isDigit = true :=
    List.forall_mem_cons.2 ⟨hc, List.all_eq_true.1 List.all_takeWhile⟩
  have hhead : ∀ k w, Spells k (c :: w) → k = .number ∧ ∀ d ∈ w, d.isDigit = true := by
    intro k w hs
    rcases hs.cases_head with ⟨hi, -⟩ | ⟨-, hw⟩ | ⟨-, hm⟩
    · rw [isDigit_of_isIdentStart hi] at hc
      cases hc
    · exact hw
    · have hn := (marks_facts _ hm).1
      rw [isIdentChar_of_isDigit hc] at hn
      cases hn
  refine .spelled (.number (List.cons_ne_nil _ _) hall) ?_ ?_ ?_
  · exact (List.prefix_cons_inj c).2 (List.takeWhile_prefix Char.isDigit)
  · intro k w hs hw
    cases w with
    | nil => exact absurd rfl hs.ne_nil
    | cons d w =>
      obtain rfl : d = c := (List.cons_prefix_cons.1 hw).1
      exact length_le_takeWhile hw (hhead k w hs).2
  · intro k hs
    exact .inl (hhead k _ hs).1

theorem begins_symbol (hg : isGap c = false) (hi : isIdentStart c = false)
    (hd : c.isDigit = false) (z : List Char) : Begins (c :: z) (symbolKind c) [c] := by
  have hhead : ∀ k w, Spells k (c :: w) → w = [] ∧ (c, k) ∈ marks := by
    intro k w hs
    rcases hs.cases_head with ⟨h, -⟩ | ⟨h, -⟩ | h
    · rw [hi] at h
      cases h
    · rw [hd] at h
      cases h
    · exact h
  have hfirst : ∀ k w, Spells k w → w <+: c :: z → w = [c] ∧ (c, k) ∈ marks := by
    intro k w hs hw
    cases w with
    | nil => exact absurd rfl hs.ne_nil
    | cons d w =>
      obtain rfl : d = c := (List.cons_prefix_cons.1 hw).1
      obtain ⟨rfl, hm⟩ := hhead k w hs
      exact ⟨rfl, hm⟩
  have hprefix : [c] <+: c :: z := ⟨z, rfl⟩
  rw [symbolKind_eq_lookup]
  rcases lookup_cases marks c .unknown with hk | ⟨hn, hk⟩
  · refine .spelled (.mark hk) hprefix ?_ ?_
    · intro k w hs hw
      rw [(hfirst k w hs hw).1]
    · intro k hs
      have hsame : symbolKind c = k := (marks_facts _ (hhead k [] hs).2).2.2.1
      rw [symbolKind_eq_lookup] at hsame
      exact .inl hsame.symm
  · rw [hk]
    exact .unknown hprefix hg fun k w hs hw => hn k (hfirst k w hs hw).2

theorem begins_token (hg : isGap c = false) (z : List Char) :
    Begins (c :: z) (tokenKind c (tokenText c z)) (tokenText c z) := by
  unfold tokenKind tokenText
  cases hi : isIdentStart c with
  | true => exact begins_word hi z
  | false =>
    cases hd : c.isDigit with
    | true => exact begins_number hd z
    | false => exact begins_symbol hg hi hd z

end Spellings

namespace Begins

variable {s w z : List Char} {k : TokenKind}

theorem ne_nil (h : Begins s k w) : w ≠ [] := by
  cases h with
  | spelled hs _ _ _ => exact hs.ne_nil
  | unknown => exact List.cons_ne_nil _ _

theorem isGap_of_mem (h : Begins s k w) : ∀ d ∈ w, isGap d = false := by
  cases h with
  | spelled hs _ _ _ => exact hs.isGap
  | unknown _ hg _ =>
    intro d hd
    rwa [List.mem_singleton.1 hd]

theorem isIdent_of_mem (h : Begins s k w) {d : Char} (hd : d ∈ w) (hi : isIdentStart d = true) :
    isIdent w = true := by
  cases h with
  | spelled hs _ _ _ =>
    cases hs with
    | keyword hk => exact (isIdent_keyword _ hk).1
    | word h => exact h
    | number _ hn =>
      have hdigit := hn d hd
      rw [isDigit_of_isIdentStart hi] at hdigit
      cases hdigit
    | mark hm =>
      have hn := (marks_facts _ hm).1
      rw [← List.mem_singleton.1 hd, isIdentChar_of_isIdentStart hi] at hn
      cases hn
  | unknown hp _ hn =>
    rw [List.mem_singleton.1 hd] at hi
    refine absurd hp (hn .word _ (.word ?_))
    rw [isIdent, hi]
    rfl

theorem isIdent_iff (h : Begins s k w) : isIdent w = true ↔ k.IsKeyword ∨ k = .word := by
  cases h with
  | spelled hs _ _ _ => exact hs.isIdent_iff
  | unknown hp _ hn =>
    refine iff_of_false ?_ (by simp [TokenKind.IsKeyword])
    intro hi
    exact hn .word _ (.word hi) hp

theorem isKeyword_iff (h : Begins s k w) :
    (k.IsKeyword ↔ ∃ k, (w, k) ∈ keywords) ∧ ∀ k', (w, k') ∈ keywords → k = k' := by
  have hkind : ∀ k', (w, k') ∈ keywords → k = k' := by
    intro k' hk'
    cases h with
    | spelled _ _ _ hk =>
      rcases hk k' (.keyword hk') with rfl | rfl
      · rfl
      · exact (kind_keyword _ hk').elim
    | unknown hp _ hn => exact absurd hp (hn k' _ (.keyword hk'))
  refine ⟨⟨?_, ?_⟩, hkind⟩
  · intro hkey
    cases h with
    | spelled hs _ _ _ =>
      cases hs with
      | keyword hk => exact ⟨k, hk⟩
      | word | number => exact hkey.elim
      | mark hm => exact absurd hkey (marks_facts _ hm).2.2.2.1
    | unknown => exact hkey.elim
  · rintro ⟨k', hk'⟩
    rw [hkind k' hk']
    exact kind_keyword _ hk'

theorem ends (h : Begins (w ++ z) k w) (hi : isIdent w = true) :
    ∀ d ∈ z.head?, isIdentChar d = false := by
  intro d hd
  cases z with
  | nil => cases hd
  | cons e z =>
    obtain rfl : e = d := Option.some.inj hd
    cases hc : isIdentChar e with
    | false => rfl
    | true =>
      have hlonger : isIdent (w ++ [e]) = true := by
        cases w with
        | nil => cases hi
        | cons c w =>
          simp only [isIdent, Bool.and_eq_true] at hi
          simp [isIdent, hi, hc]
      have hprefix : w ++ [e] <+: w ++ e :: z := ⟨z, by simp⟩
      cases h with
      | spelled _ _ hlongest _ =>
        have hle := hlongest .word _ (.word hlonger) hprefix
        rw [List.length_append, List.length_singleton] at hle
        omega
      | unknown _ _ hn => exact absurd hprefix (hn .word _ (.word hlonger))

end Begins

/-- The token is the text at its offset, as the token that begins there, and no identifier of the text
goes beyond it on either side. -/
structure Token.StandsIn (t : Token) (s : List Char) : Prop where
  nonempty : t.offset < t.stop
  bytes : s.utf8Encode.extract t.offset t.stop = t.text.utf8Encode
  begins : ∃ x z, s = x ++ (t.text ++ z) ∧ t.offset = byteSize x ∧
    Begins (t.text ++ z) t.kind t.text ∧
    (isIdent t.text = true → ∀ d ∈ z.head?, isIdentChar d = false)
  word : isIdent t.text = true ↔ t.kind.IsKeyword ∨ t.kind = .word
  keyword : t.kind.IsKeyword ↔ ∃ k, (t.text, k) ∈ keywords
  kind : ∀ k, (t.text, k) ∈ keywords → t.kind = k
  whole : ∀ a w b, s = a ++ (w ++ b) → isIdent w = true → byteSize a ≤ t.offset →
    t.stop ≤ byteSize a + byteSize w → t.text = w

section Places

variable {s : List Char} {t u : Token} {o : Nat}

theorem begins_of_mem_tokenize (h : t ∈ tokenize s) :
    ∃ x z, s = x ++ (t.text ++ z) ∧ t.offset = byteSize x ∧
      Begins (t.text ++ z) t.kind t.text := by
  obtain ⟨x, c, z, rfl, hg, rfl⟩ := exists_of_mem_tokenizeFrom h
  refine ⟨x, afterToken c z, ?_, Nat.zero_add _, ?_⟩
  · rw [tokenText_append_afterToken]
  · rw [tokenText_append_afterToken]
    exact begins_token hg z

theorem offset_lt_stop (h : t ∈ tokenizeFrom o s) : t.offset < t.stop := by
  obtain ⟨x, c, z, -, hg, rfl⟩ := exists_of_mem_tokenizeFrom h
  have hpos : 0 < byteSize (tokenText c z) :=
    Nat.pos_of_ne_zero fun e => (begins_token hg z).ne_nil (byteSize_eq_zero e)
  exact Nat.lt_add_of_pos_right hpos

theorem pairwise_tokenizeFrom (o : Nat) (s : List Char) :
    (tokenizeFrom o s).Pairwise fun a b => a.stop ≤ b.offset := by
  fun_induction tokenizeFrom o s with
  | case1 => exact .nil
  | case2 o c s hg ih => exact ih
  | case3 o c s hg _ text ih =>
    refine .cons (fun b hb => ?_) ih
    obtain ⟨x, d, z, -, -, rfl⟩ := exists_of_mem_tokenizeFrom hb
    exact Nat.le_add_right _ _

theorem eq_of_covers {n : Nat} (ht : t ∈ tokenize s) (hu : u ∈ tokenize s) (htn : t.Covers n)
    (hun : u.Covers n) : t = u := by
  have hapart : (tokenize s).Pairwise fun t u => ¬ (t.Covers n ∧ u.Covers n) := by
    refine (pairwise_tokenizeFrom 0 s).imp ?_
    rintro t u hle ⟨⟨-, hlt⟩, hge, -⟩
    omega
  have : Std.Symm fun t u : Token => ¬ (t.Covers n ∧ u.Covers n) :=
    ⟨fun _ _ h hc => h hc.symm⟩
  by_contra hne
  exact hapart.forall ht hu hne ⟨htn, hun⟩

theorem exists_covers {c : Char} (hc : isGap c = false) (a b : List Char) (o : Nat) :
    ∃ t ∈ tokenizeFrom o (a ++ c :: b), t.Covers (o + byteSize a) := by
  generalize hs : a ++ c :: b = s
  fun_induction tokenizeFrom o s generalizing a with
  | case1 o => simp at hs
  | case2 o d s hg ih =>
    cases a with
    | nil =>
      obtain rfl : c = d := (List.cons.inj hs).1
      rw [hc] at hg
      cases hg
    | cons e a =>
      obtain ⟨t, ht, hcov⟩ := ih a (List.cons.inj hs).2
      have he : e.utf8Size = 1 := by rw [(List.cons.inj hs).1, utf8Size_of_isGap hg]
      rw [byteSize, he, ← Nat.add_assoc]
      exact ⟨t, ht, hcov⟩
  | case3 o d s hg _ text ih =>
    rw [← tokenText_append_afterToken d s] at hs
    by_cases hlt : byteSize a < byteSize text
    · exact ⟨_, List.mem_cons_self, Nat.le_add_right _ _, Nat.add_lt_add_left hlt o⟩
    · obtain ⟨u, rfl, hu⟩ := exists_append_of_byteSize_le hs.symm (Nat.le_of_not_lt hlt)
      obtain ⟨t, ht, hcov⟩ := ih u hu.symm
      rw [byteSize_append, ← Nat.add_assoc]
      exact ⟨t, List.mem_cons_of_mem _ ht, hcov⟩

theorem Token.Covers.split {x z a b : List Char} {c : Char} (hcov : t.Covers (byteSize a))
    (hoff : t.offset = byteSize x) (h : x ++ (t.text ++ z) = a ++ c :: b) :
    ∃ p q, a = x ++ p ∧ t.text = p ++ c :: q ∧ b = q ++ z := by
  obtain ⟨hle, hlt⟩ := hcov
  rw [hoff] at hle
  obtain ⟨p, rfl, hp⟩ := exists_append_of_byteSize_le h hle
  rw [Token.stop, hoff, byteSize_append] at hlt
  have hshort : byteSize p < byteSize t.text := by omega
  obtain ⟨q, htext, hq⟩ := exists_append_of_byteSize_le hp.symm (Nat.le_of_lt hshort)
  cases q with
  | nil =>
    rw [htext, List.append_nil] at hshort
    exact absurd hshort (Nat.lt_irrefl _)
  | cons d q =>
    obtain ⟨rfl, rfl⟩ := List.cons.inj hq
    exact ⟨p, q, rfl, htext, rfl⟩

theorem isGap_iff_forall_not_covers (a : List Char) (c : Char) (b : List Char) :
    isGap c = true ↔ ∀ t ∈ tokenize (a ++ c :: b), ¬ t.Covers (byteSize a) := by
  constructor
  · intro hc t ht hcov
    obtain ⟨x, z, hs, hoff, hbegins⟩ := begins_of_mem_tokenize ht
    obtain ⟨p, q, -, htext, -⟩ := hcov.split hoff hs.symm
    have hmem : c ∈ t.text := htext ▸ List.mem_append_right p List.mem_cons_self
    rw [hbegins.isGap_of_mem c hmem] at hc
    cases hc
  · intro hnone
    cases hc : isGap c with
    | true => rfl
    | false =>
      obtain ⟨t, ht, hcov⟩ := exists_covers hc a b 0
      rw [Nat.zero_add] at hcov
      exact absurd hcov (hnone t ht)

theorem exists_token_of_isIdent {w : List Char} (hw : isIdent w = true) (a b : List Char) :
    ∃ t ∈ tokenize (a ++ (w ++ b)), ∃ p q, t.text = p ++ (w ++ q) ∧
      t.offset + byteSize p = byteSize a := by
  cases w with
  | nil => cases hw
  | cons c w =>
    have hstart : isIdentStart c = true := by
      simp only [isIdent, Bool.and_eq_true] at hw
      exact hw.1
    have hg : isGap c = false := isGap_of_isIdentChar (isIdentChar_of_isIdentStart hstart)
    obtain ⟨t, ht, hcov⟩ := exists_covers hg a (w ++ b) 0
    rw [Nat.zero_add] at hcov
    obtain ⟨x, z, hs, hoff, hbegins⟩ := begins_of_mem_tokenize ht
    obtain ⟨p, q, rfl, htext, htail⟩ := hcov.split hoff hs.symm
    have hmem : c ∈ t.text := htext ▸ List.mem_append_right p List.mem_cons_self
    have hends := hbegins.ends (hbegins.isIdent_of_mem hmem hstart)
    refine ⟨t, ht, ?_⟩
    rcases List.append_eq_append_iff.1 htail with ⟨q', rfl, -⟩ | ⟨r, rfl, rfl⟩
    · exact ⟨p, q', htext, by rw [hoff, byteSize_append]⟩
    · -- The identifier would go on behind the token, which is read as far as identifiers go.
      cases r with
      | nil => exact ⟨p, [], by simpa using htext, by rw [hoff, byteSize_append]⟩
      | cons d r =>
        have hd : isIdentChar d = true := isIdentChar_of_mem hw (by simp)
        rw [hends d rfl] at hd
        cases hd

theorem text_eq_of_isIdent {a w b : List Char} (ht : t ∈ tokenize (a ++ (w ++ b)))
    (hw : isIdent w = true) (hle : byteSize a ≤ t.offset)
    (hstop : t.stop ≤ byteSize a + byteSize w) : t.text = w := by
  obtain ⟨u, hu, p, q, htext, hoff⟩ := exists_token_of_isIdent hw a b
  have hlt : t.offset < t.stop := offset_lt_stop ht
  have hsize : u.stop = byteSize a + byteSize w + byteSize q := by
    rw [Token.stop, htext, byteSize_append, byteSize_append]
    omega
  have hsame : t = u :=
    eq_of_covers ht hu (n := t.offset) ⟨Nat.le_refl _, hlt⟩ ⟨by omega, by omega⟩
  subst hsame
  have hp : p = [] := byteSize_eq_zero (by omega)
  have hq : q = [] := byteSize_eq_zero (by omega)
  rw [htext, hp, hq, List.nil_append, List.append_nil]

theorem standsIn_of_mem_tokenize (ht : t ∈ tokenize s) : t.StandsIn s := by
  obtain ⟨x, z, rfl, hoff, hbegins⟩ := begins_of_mem_tokenize ht
  exact {
    nonempty := offset_lt_stop ht
    bytes := by rw [Token.stop, hoff, extract_utf8Encode]
    begins := ⟨x, z, rfl, hoff, hbegins, hbegins.ends⟩
    word := hbegins.isIdent_iff
    keyword := hbegins.isKeyword_iff.1
    kind := hbegins.isKeyword_iff.2
    whole := by
      intro a w b hs hw hle hstop
      rw [hs] at ht
      exact text_eq_of_isIdent ht hw hle hstop }

end Places

/-- The tokens of a text follow each other, the characters that they leave out are the gap characters,
and each of them is the text at its place: a longest one, and a keyword where all of it is spelled as
one. -/
theorem tokenize_lossless (s : List Char) :
    (tokenize s).Pairwise (fun t u => t.stop ≤ u.offset) ∧
    (∀ a c b, s = a ++ c :: b →
      (isGap c = true ↔ ∀ t ∈ tokenize s, ¬ t.Covers (byteSize a))) ∧
    ∀ t ∈ tokenize s, t.StandsIn s := by
  refine ⟨pairwise_tokenizeFrom 0 s, ?_, fun t => standsIn_of_mem_tokenize⟩
  rintro a c b rfl
  exact isGap_iff_forall_not_covers a c b

example : tokenize "__local locals 2é*".toList =
    [⟨.space .localMem, "__local".toList, 0⟩, ⟨.word, "locals".toList, 8⟩,
      ⟨.number, ['2'], 15⟩, ⟨.unknown, ['é'], 16⟩, ⟨.star, ['*'], 18⟩] := by
  cbv

end KernelWrap.Declaration
