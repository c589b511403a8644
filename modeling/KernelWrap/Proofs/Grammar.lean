import KernelWrap.Declaration.Signature
import KernelWrap.Proofs.Lexeme
import Mathlib.Data.List.Forall2

/-! The signature grammar as lists of symbols, and the reader on the tokens of a declaration: it
takes exactly the tokens that the declaration is written with and leaves what follows them. Each
part is read until a token that cannot continue it, so every lemma asks what comes next. -/

namespace KernelWrap.Declaration

inductive Symbol where
  | key (kind : TokenKind)
  | word (text : List Char)
  deriving Repr, DecidableEq

def Symbol.Matches : Symbol → Lexeme → Prop
  | key k, l => l.kind = k
  | word w, l => l.kind = .word ∧ l.text = w

def Mark.kind : Mark → TokenKind
  | qualifier q => .qualifier q
  | space s => .space s

def Mark.isSpace : Mark → Bool
  | qualifier _ => false
  | space _ => true

def BaseType.symbols : BaseType → List Symbol
  | named n => [.word n]
  | void => [.key .void]
  | unsigned none => [.key .unsigned]
  | unsigned (some w) => [.key .unsigned, .word w]

def qualifierSymbols (qs : List TypeQualifier) : List Symbol := qs.map fun q => .key (.qualifier q)

def pointerSymbols : Option (List TypeQualifier) → List Symbol
  | none => []
  | some qs => .key .star :: qualifierSymbols qs

def Parameter.symbols (p : Parameter) : List Symbol :=
  p.marks.map (fun m => .key m.kind) ++ (p.base.symbols ++ (qualifierSymbols p.qualifiers ++
    (pointerSymbols p.pointer ++ [.word p.name])))

def parameterSymbols : List Parameter → List Symbol
  | [] => []
  | [p] => p.symbols
  | p :: ps => p.symbols ++ .key .comma :: parameterSymbols ps

/-- The symbols of a declaration; an empty list of parameters may be written as `void`. -/
def DeclaredKernel.symbols (d : DeclaredKernel) (void : Bool) : List Symbol :=
  .key .kernel :: .key .void :: .word d.name :: .key .openParen ::
    ((if d.parameters = [] ∧ void = true then [.key .void] else parameterSymbols d.parameters) ++
      [.key .closeParen])

/-- The word behind `unsigned` is one of four, and a parameter lies in one address space at most. -/
def Parameter.Legal (p : Parameter) : Prop :=
  (∀ w, p.base = .unsigned (some w) → w ∈ lengthWords) ∧ p.marks.countP Mark.isSpace ≤ 1

def Reads (ss : List Symbol) (ts : List Token) : Prop :=
  List.Forall₂ (fun s t => s.Matches t.lexeme) ss ts

def NotAt (kinds : TokenKind → Prop) (ts : List Token) : Prop := ∀ t ∈ ts.head?, ¬ kinds t.kind

def IsQualifier (k : TokenKind) : Prop := ∃ q, k = .qualifier q

def IsMark (k : TokenKind) : Prop := ∃ m : Mark, k = m.kind

section Reading

theorem forall₂_append {α β : Type} {R : α → β → Prop} {as bs : List α} {ts : List β}
    (h : List.Forall₂ R (as ++ bs) ts) :
    ∃ us vs, ts = us ++ vs ∧ List.Forall₂ R as us ∧ List.Forall₂ R bs vs := by
  induction as generalizing ts with
  | nil => exact ⟨[], ts, rfl, .nil, h⟩
  | cons a as ih =>
    obtain ⟨t, ts', ha, h', rfl⟩ := List.forall₂_cons_left_iff.1 h
    obtain ⟨us, vs, rfl, hu, hv⟩ := ih h'
    exact ⟨t :: us, vs, rfl, .cons ha hu, hv⟩

theorem forall₂_mem_right {α β : Type} {R : α → β → Prop} {as : List α} {bs : List β}
    (h : List.Forall₂ R as bs) {b : β} (hb : b ∈ bs) : ∃ a ∈ as, R a b := by
  induction h with
  | nil => cases hb
  | @cons a c as bs hr _ ih =>
    rcases List.mem_cons.1 hb with rfl | hb
    · exact ⟨a, List.mem_cons_self, hr⟩
    · obtain ⟨x, hx, hr⟩ := ih hb
      exact ⟨x, List.mem_cons_of_mem a hx, hr⟩

theorem reads_append {as bs : List Symbol} {ts : List Token} (h : Reads (as ++ bs) ts) :
    ∃ us vs, ts = us ++ vs ∧ Reads as us ∧ Reads bs vs := forall₂_append h

theorem reads_cons {a : Symbol} {as : List Symbol} {ts : List Token} (h : Reads (a :: as) ts) :
    ∃ t ts', ts = t :: ts' ∧ a.Matches t.lexeme ∧ Reads as ts' := by
  obtain ⟨t, ts', ha, has, rfl⟩ := List.forall₂_cons_left_iff.1 h
  exact ⟨t, ts', rfl, ha, has⟩

theorem reads_nil {ts : List Token} (h : Reads [] ts) : ts = [] := List.forall₂_nil_left_iff.1 h

theorem notAt_append {kinds : TokenKind → Prop} {ss : List Symbol} {us rest : List Token}
    (h : Reads ss us) (hs : ∀ s ∈ ss.head?, ∀ l, s.Matches l → ¬ kinds l.kind)
    (hr : ss = [] → NotAt kinds rest) : NotAt kinds (us ++ rest) := by
  cases ss with
  | nil =>
    rw [reads_nil h, List.nil_append]
    exact hr rfl
  | cons s ss =>
    obtain ⟨t, ts', rfl, hm, -⟩ := reads_cons h
    intro u hu
    cases hu
    exact hs s rfl _ hm

theorem expect_of_kind {k : TokenKind} {t : Token} (h : t.kind = k) (f : Fault) (ts : List Token) :
    expect k f (t :: ts) = .ok (t, ts) := by
  simp only [expect, h, if_true]

theorem readMarks_of_notAt (spaced : Bool) {rest : List Token} (hr : NotAt IsMark rest) :
    readMarks spaced rest = .ok ([], rest) := by
  cases rest with
  | nil => rfl
  | cons t rest =>
    have hq : ∀ q, t.kind ≠ .qualifier q := fun q e => hr t rfl ⟨.qualifier q, e⟩
    have hp : ∀ s, t.kind ≠ .space s := fun s e => hr t rfl ⟨.space s, e⟩
    rw [readMarks]
    split
    · next q e => exact absurd e (hq q)
    · next s e => exact absurd e (hp s)
    · rfl

theorem readMarks_of_reads (spaced : Bool) {ms : List Mark} {ts : List Token}
    (h : Reads (ms.map fun m => .key m.kind) ts)
    (hs : ms.countP Mark.isSpace + spaced.toNat ≤ 1)
    {rest : List Token} (hr : NotAt IsMark rest) :
    readMarks spaced (ts ++ rest) = .ok (ms, rest) := by
  -- `spaced` counts as one address space, so that the bound says when a second one is refused.
  induction ms generalizing ts spaced with
  | nil =>
    rw [reads_nil h, List.nil_append]
    exact readMarks_of_notAt spaced hr
  | cons m ms ih =>
    obtain ⟨t, ts', rfl, hm, h'⟩ := reads_cons h
    have hk : t.kind = m.kind := hm
    cases m with
    | qualifier q =>
      rw [List.cons_append, readMarks, hk]
      simp only [Mark.kind, ih spaced h' hs, Except.map]
    | space s =>
      rw [List.countP_cons_of_pos rfl] at hs
      have hf : spaced = false := by
        cases spaced with
        | false => rfl
        | true => simp only [Bool.toNat_true] at hs; omega
      have hs' : ms.countP Mark.isSpace + true.toNat ≤ 1 := by
        simp only [Bool.toNat_true]
        omega
      rw [List.cons_append, readMarks, hk, hf]
      simp only [Mark.kind, Bool.false_eq_true, if_false, ih true h' hs', Except.map]

theorem readQualifiers_of_notAt {rest : List Token} (hr : NotAt IsQualifier rest) :
    readQualifiers rest = ([], rest) := by
  cases rest with
  | nil => rfl
  | cons t rest =>
    have hq : ∀ q, t.kind ≠ .qualifier q := fun q e => hr t rfl ⟨q, e⟩
    rw [readQualifiers]
    split
    · next q e => exact absurd e (hq q)
    · rfl

theorem readQualifiers_of_reads {qs : List TypeQualifier} {ts : List Token}
    (h : Reads (qualifierSymbols qs) ts) {rest : List Token} (hr : NotAt IsQualifier rest) :
    readQualifiers (ts ++ rest) = (qs, rest) := by
  induction qs generalizing ts with
  | nil =>
    rw [reads_nil h, List.nil_append]
    exact readQualifiers_of_notAt hr
  | cons q qs ih =>
    obtain ⟨t, ts', rfl, hq, h'⟩ := reads_cons h
    have hk : t.kind = .qualifier q := hq
    rw [List.cons_append, readQualifiers, hk]
    simp only [ih h']

theorem readPointer_of_reads {p : Option (List TypeQualifier)} {ts : List Token}
    (h : Reads (pointerSymbols p) ts) {rest : List Token}
    (hr : NotAt (fun k => k = .star ∨ IsQualifier k) rest) :
    readPointer (ts ++ rest) = .ok (p, rest) := by
  have hstar : startsAtStar rest = false := by
    cases rest with
    | nil => rfl
    | cons t rest => exact beq_false_of_ne fun e => hr t rfl (.inl e)
  cases p with
  | none =>
    rw [reads_nil h, List.nil_append]
    cases rest with
    | nil => rfl
    | cons t rest =>
      rw [readPointer, if_neg fun e => hr t rfl (.inl e)]
  | some qs =>
    obtain ⟨t, ts', rfl, ht, h'⟩ := reads_cons h
    have hk : t.kind = .star := ht
    have hq : readQualifiers (ts' ++ rest) = (qs, rest) :=
      readQualifiers_of_reads h' fun t ht e => hr t ht (.inr e)
    rw [List.cons_append, readPointer, if_pos hk, hq, hstar]
    rfl

/-- What stands between a base type and the end of its parameter: a qualifier or a star first, or
the name and nothing else. -/
def AfterBase (ts after : List Token) : Prop :=
  ∃ t rest, ts = t :: rest ∧ (IsQualifier t.kind ∨ t.kind = .star ∨ (t.kind = .word ∧ rest = after))

theorem readBase_of_reads {b : BaseType} {ts : List Token} (h : Reads b.symbols ts)
    (hb : ∀ w, b = .unsigned (some w) → w ∈ lengthWords) {rest after : List Token}
    (hr : AfterBase rest after) (ha : endsParameter after = true) :
    readBase (ts ++ rest) = .ok (b, rest) := by
  obtain ⟨u, more, rfl, hw⟩ := hr
  cases b with
  | named n =>
    obtain ⟨t, ts', rfl, ht, h'⟩ := reads_cons h
    obtain ⟨hk, rfl⟩ : t.kind = .word ∧ t.text = n := ht
    rw [reads_nil h', List.singleton_append, readBase, hk]
  | void =>
    obtain ⟨t, ts', rfl, ht, h'⟩ := reads_cons h
    have hk : t.kind = .void := ht
    rw [reads_nil h', List.singleton_append, readBase, hk]
  | unsigned word =>
    cases word with
    | none =>
      obtain ⟨t, ts', rfl, ht, h'⟩ := reads_cons h
      have hk : t.kind = .unsigned := ht
      rw [reads_nil h', List.singleton_append, readBase, hk]
      -- A word behind `unsigned` is the name here, and the name ends the parameter.
      have hn : ¬ (u.kind = .word ∧ u.text ∈ lengthWords ∧ endsParameter more = false) := by
        rintro ⟨hu, -, he⟩
        rcases hw with ⟨q, e⟩ | e | ⟨-, rfl⟩
        · rw [hu] at e; cases e
        · rw [hu] at e; cases e
        · rw [ha] at he; cases he
      simp only [hn, if_false]
    | some w =>
      obtain ⟨t, ts', rfl, ht, h'⟩ := reads_cons h
      obtain ⟨v, ts'', rfl, hv, h''⟩ := reads_cons h'
      have hk : t.kind = .unsigned := ht
      obtain ⟨hvk, rfl⟩ : v.kind = .word ∧ v.text = w := hv
      -- What follows the length word is no end of a parameter, since a name is still to come.
      have he : endsParameter (u :: more) = false := by
        rcases hw with ⟨q, e⟩ | e | ⟨e, -⟩ <;> rw [endsParameter, e] <;> rfl
      rw [reads_nil h'', List.cons_append, List.singleton_append, readBase, hk]
      simp only [hvk, hb _ rfl, he, and_self, if_true]

theorem afterBase_of_reads {qs : List TypeQualifier} {p : Option (List TypeQualifier)}
    {us vs : List Token} (hq : Reads (qualifierSymbols qs) us) (hp : Reads (pointerSymbols p) vs)
    {t : Token} (ht : t.kind = .word) {after : List Token} :
    AfterBase (us ++ (vs ++ t :: after)) after := by
  cases qs with
  | cons q qs =>
    obtain ⟨u, us', rfl, hu, -⟩ := reads_cons hq
    exact ⟨u, _, rfl, .inl ⟨q, hu⟩⟩
  | nil =>
    rw [reads_nil hq, List.nil_append]
    cases p with
    | some ps =>
      obtain ⟨v, vs', rfl, hv, -⟩ := reads_cons hp
      exact ⟨v, _, rfl, .inr (.inl hv)⟩
    | none =>
      rw [reads_nil hp, List.nil_append]
      exact ⟨t, after, rfl, .inr (.inr ⟨ht, rfl⟩)⟩

theorem BaseType.symbols_ne_nil (b : BaseType) : b.symbols ≠ [] := by
  unfold BaseType.symbols
  split <;> exact List.cons_ne_nil _ _

theorem BaseType.kind_of_head {b : BaseType} {s : Symbol} (h : s ∈ b.symbols.head?) {l : Lexeme}
    (hl : s.Matches l) : l.kind = .word ∨ l.kind = .void ∨ l.kind = .unsigned := by
  unfold BaseType.symbols at h
  split at h <;> cases h
  · exact .inl hl.1
  · exact .inr (.inl hl)
  · exact .inr (.inr hl)
  · exact .inr (.inr hl)

theorem readParameter_of_reads {p : Parameter} {ts : List Token} (h : Reads p.symbols ts)
    (hp : p.Legal) {after : List Token} (ha : endsParameter after = true) :
    readParameter (ts ++ after) = .ok (p, after) := by
  obtain ⟨marks, ts₁, rfl, hm, h₁⟩ := reads_append h
  obtain ⟨base, ts₂, rfl, hb, h₂⟩ := reads_append h₁
  obtain ⟨quals, ts₃, rfl, hq, h₃⟩ := reads_append h₂
  obtain ⟨pointer, ts₄, rfl, hs, h₄⟩ := reads_append h₃
  obtain ⟨t, ts₅, rfl, ht, h₅⟩ := reads_cons h₄
  obtain ⟨hk, hn⟩ : t.kind = .word ∧ t.text = p.name := ht
  rw [reads_nil h₅]
  -- What the pointer, the qualifiers, the base and the marks are followed by, from right to left.
  have hr₄ : NotAt (fun k => k = .star ∨ IsQualifier k) (t :: after) := by
    rintro _ ⟨⟩ (e | ⟨q, e⟩) <;> rw [hk] at e <;> cases e
  have hr₃ : NotAt IsQualifier (pointer ++ t :: after) := by
    refine notAt_append hs ?_ fun _ => fun u hu hq => hr₄ u hu (.inr hq)
    cases p.pointer with
    | none => simp [pointerSymbols]
    | some qs =>
      rintro _ ⟨⟩ l hl ⟨q, e⟩
      rw [show l.kind = .star from hl] at e
      cases e
  have hr₂ : AfterBase (quals ++ (pointer ++ t :: after)) after :=
    afterBase_of_reads hq hs hk
  have hr₁ : NotAt IsMark (base ++ (quals ++ (pointer ++ t :: after))) := by
    refine notAt_append hb ?_ fun e => absurd e (BaseType.symbols_ne_nil _)
    rintro s hs l hl ⟨m, e⟩
    rcases BaseType.kind_of_head hs hl with h | h | h <;> rw [h] at e <;> cases m <;> cases e
  have e₁ := readMarks_of_reads false hm (by simpa using hp.2) hr₁
  have e₂ := readBase_of_reads hb hp.1 hr₂ ha
  have e₃ := readQualifiers_of_reads hq hr₃
  have e₄ := readPointer_of_reads hs hr₄
  have e₅ := expect_of_kind hk .noParameterName after
  simp only [List.append_assoc, List.singleton_append, readParameter, bind, Except.bind, pure,
    Except.pure, e₁, e₂, e₃, e₄, e₅, hn]

theorem readParameters_of_reads {p : Parameter} {ps : List Parameter} {ts : List Token}
    (h : Reads (parameterSymbols (p :: ps)) ts) (hp : ∀ q ∈ p :: ps, q.Legal) {t : Token}
    (ht : t.kind = .closeParen) (after : List Token) :
    readParameters (ts ++ t :: after) = .ok (p :: ps, t :: after) := by
  induction ps generalizing p ts with
  | nil =>
    have he : endsParameter (t :: after) = true := by rw [endsParameter, ht]; rfl
    have hr := readParameter_of_reads h (hp p List.mem_cons_self) he
    rw [readParameters]
    split
    · next e => rw [hr] at e; cases e
    · next e =>
      rw [hr] at e
      cases e
      exact if_neg (by simp [ht])
  | cons q qs ih =>
    obtain ⟨us, vs, rfl, hu, hv⟩ := reads_append h
    obtain ⟨c, vs', rfl, hc, hv'⟩ := reads_cons hv
    have hk : c.kind = .comma := hc
    have he : endsParameter (c :: (vs' ++ t :: after)) = true := by rw [endsParameter, hk]; rfl
    have hr := readParameter_of_reads hu (hp p List.mem_cons_self) he
    have hi := ih hv' (fun x hx => hp x (List.mem_cons_of_mem p hx))
    rw [List.append_assoc, List.cons_append, readParameters]
    split
    · next e => rw [hr] at e; cases e
    · next e =>
      rw [hr] at e
      cases e
      simp only [hk, if_true, hi, Except.map]

theorem parameterSymbols_cons (p : Parameter) (ps : List Parameter) :
    ∃ ss, parameterSymbols (p :: ps) = p.symbols ++ ss := by
  cases ps with
  | nil => exact ⟨[], (List.append_nil _).symm⟩
  | cons q qs => exact ⟨_, rfl⟩

theorem kind_ne_closeParen {p : Parameter} {s : Symbol} (hs : s ∈ p.symbols) {l : Lexeme}
    (hl : s.Matches l) : l.kind ≠ .closeParen := by
  have hq : ∀ qs, s ∈ qualifierSymbols qs → l.kind ≠ .closeParen := by
    intro qs h
    obtain ⟨q, -, rfl⟩ := List.mem_map.1 h
    rw [show l.kind = .qualifier q from hl]
    exact TokenKind.noConfusion
  simp only [Parameter.symbols, List.mem_append, List.mem_map, List.mem_singleton] at hs
  -- A mark, the base type, a qualifier, the pointer with its qualifiers, or the name.
  rcases hs with ⟨m, -, rfl⟩ | h | h | h | rfl
  · rw [show l.kind = m.kind from hl]
    cases m <;> exact TokenKind.noConfusion
  · unfold BaseType.symbols at h
    split at h <;> simp only [List.mem_cons, List.not_mem_nil, or_false] at h
    · subst h; rw [hl.1]; exact TokenKind.noConfusion
    · subst h; rw [show l.kind = .void from hl]; exact TokenKind.noConfusion
    · subst h; rw [show l.kind = .unsigned from hl]; exact TokenKind.noConfusion
    · rcases h with rfl | rfl
      · rw [show l.kind = .unsigned from hl]; exact TokenKind.noConfusion
      · rw [hl.1]; exact TokenKind.noConfusion
  · exact hq _ h
  · cases e : p.pointer with
    | none => simp [e, pointerSymbols] at h
    | some qs =>
      rw [e] at h
      rcases List.mem_cons.1 h with rfl | h
      · rw [show l.kind = .star from hl]; exact TokenKind.noConfusion
      · exact hq _ h
  · rw [hl.1]; exact TokenKind.noConfusion

theorem two_le_length_symbols (p : Parameter) : 2 ≤ p.symbols.length := by
  have := List.length_pos_iff.2 (BaseType.symbols_ne_nil p.base)
  simp only [Parameter.symbols, List.length_append, List.length_singleton]
  omega

theorem readParameterList_of_reads {p : Parameter} {ps : List Parameter} {ts : List Token}
    (h : Reads (parameterSymbols (p :: ps)) ts) (hp : ∀ q ∈ p :: ps, q.Legal) {t : Token}
    (ht : t.kind = .closeParen) (after : List Token) :
    readParameterList (ts ++ t :: after) = .ok (p :: ps, t :: after) := by
  have hr := readParameters_of_reads h hp ht after
  obtain ⟨ss, hss⟩ := parameterSymbols_cons p ps
  have hmem := fun s (hs : s ∈ p.symbols) l (hl : s.Matches l) => kind_ne_closeParen hs hl
  rw [hss] at h
  match e : p.symbols, two_le_length_symbols p with
  | a :: b :: more, _ =>
    rw [e] at h hmem
    obtain ⟨u, ts, rfl, hu, h⟩ := reads_cons h
    obtain ⟨v, ts, rfl, hv, h⟩ := reads_cons h
    have hu' : u.kind ≠ .closeParen := hmem a List.mem_cons_self _ hu
    have hv' : v.kind ≠ .closeParen := hmem b (List.mem_cons_of_mem a List.mem_cons_self) _ hv
    rw [List.cons_append, List.cons_append] at hr ⊢
    rw [readParameterList, if_neg hu']
    simp only [hv', and_false, if_false, hr]

theorem readParameterList_empty {t : Token} (ht : t.kind = .closeParen) (after : List Token) :
    readParameterList (t :: after) = .ok ([], t :: after) := if_pos ht

theorem readParameterList_void {u t : Token} (hu : u.kind = .void) (ht : t.kind = .closeParen)
    (after : List Token) : readParameterList (u :: t :: after) = .ok ([], t :: after) := by
  simp only [readParameterList, hu, ht, and_self, if_true]
  rfl

theorem readDeclaration_of_reads {d : DeclaredKernel} {void : Bool} {ts : List Token}
    (h : Reads (d.symbols void) ts) (hd : ∀ p ∈ d.parameters, p.Legal) (rest : List Token) :
    readDeclaration (ts ++ rest) = .ok (d, rest) := by
  obtain ⟨t₁, ts, rfl, h₁, h⟩ := reads_cons h
  obtain ⟨t₂, ts, rfl, h₂, h⟩ := reads_cons h
  obtain ⟨t₃, ts, rfl, ⟨h₃, hn⟩, h⟩ := reads_cons h
  obtain ⟨t₄, ts, rfl, h₄, h⟩ := reads_cons h
  obtain ⟨us, ts, rfl, hu, h⟩ := reads_append h
  obtain ⟨t₅, ts, rfl, h₅, h⟩ := reads_cons h
  have hl : readParameterList (us ++ t₅ :: rest) = .ok (d.parameters, t₅ :: rest) := by
    cases e : d.parameters with
    | cons p ps =>
      rw [e, if_neg (by simp)] at hu
      exact readParameterList_of_reads hu (e ▸ hd) h₅ rest
    | nil =>
      rw [e] at hu
      cases void with
      | false => rw [reads_nil hu, List.nil_append, readParameterList_empty h₅]
      | true =>
        obtain ⟨v, vs, rfl, hv, hvs⟩ := reads_cons hu
        rw [reads_nil hvs, List.singleton_append, readParameterList_void hv h₅]
  have e₁ := expect_of_kind h₁ .noKernel (t₂ :: t₃ :: t₄ :: (us ++ t₅ :: rest))
  have e₂ := expect_of_kind h₂ .noVoid (t₃ :: t₄ :: (us ++ t₅ :: rest))
  have e₃ := expect_of_kind h₃ .noName (t₄ :: (us ++ t₅ :: rest))
  have e₄ := expect_of_kind h₄ .noOpen (us ++ t₅ :: rest)
  have e₅ := expect_of_kind h₅ .noSeparator rest
  rw [reads_nil h]
  simp only [List.cons_append, List.append_assoc, List.nil_append, readDeclaration, bind,
    Except.bind, pure, Except.pure, e₁, e₂, e₃, e₄, hl, e₅]
  exact congrArg _ (by rw [show t₃.text = d.name from hn])

end Reading

end KernelWrap.Declaration
