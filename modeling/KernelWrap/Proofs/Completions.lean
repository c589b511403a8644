import KernelWrap.Proofs.Reporting
import KernelWrap.Proofs.Derivations

/-! Beginnings of declarations. What a reader has taken before it fails can be continued: every reader
can be given the rest of what it was about to read. So the tokens before a failure are the beginning
of a declaration that ends in the tokens of some text. -/

namespace KernelWrap.Declaration
open Text

section Completions

/-- Tokens that the tokens of some text make a list of tokens that reads so. -/
def Completable (ss : List Symbol) (us : List Token) : Prop := ∃ z, Reads ss (us ++ tokenize z)

instance (s : Symbol) (l : Lexeme) : Decidable (s.Matches l) := by
  unfold Symbol.Matches
  cases s <;> infer_instance

instance (ss : List Symbol) (ts : List Token) : Decidable (Reads ss ts) :=
  inferInstanceAs (Decidable (List.Forall₂ _ ss ts))

theorem Reads.append_completable {ss ss' : List Symbol} {us us' : List Token} (h : Reads ss us)
    (h' : Completable ss' us') : Completable (ss ++ ss') (us ++ us') := by
  obtain ⟨z, hz⟩ := h'
  exact ⟨z, by rw [List.append_assoc]; exact h.append hz⟩

theorem Completable.append_closeParen {ss : List Symbol} {us : List Token} (h : Completable ss us) :
    Completable (ss ++ [.key .closeParen]) us := by
  obtain ⟨z, hz⟩ := h
  refine ⟨z ++ [')'], ?_⟩
  have hclose : tokenizeFrom (0 + byteSize z) [')'] = [⟨.closeParen, [')'], 0 + byteSize z⟩] := by
    rw [tokenizeFrom_symbol (by decide) (by decide), tokenizeFrom]
    rfl
  have hapart : Apart z [')'] := apart_of_head (by simp; decide)
  rw [tokenize, tokenizeFrom_append hapart, hclose, ← List.append_assoc]
  exact hz.append (.cons rfl .nil)

variable {ts rest : List Token} {f : Failure}

theorem error_of_bind {α β : Type} {x : Except Failure α} {g : α → Except Failure β}
    (h : x >>= g = .error f) : x = .error f ∨ ∃ a, x = .ok a ∧ g a = .error f := by
  cases x with
  | error e => exact .inl (congrArg _ (Except.error.inj h))
  | ok a => exact .inr ⟨a, rfl, h⟩

theorem error_of_map {α β : Type} {x : Except Failure α} {g : α → β}
    (h : x.map g = .error f) : x = .error f := by
  cases x with
  | error e => exact congrArg _ (Except.error.inj h)
  | ok a => cases h

theorem expect_eq_error {k : TokenKind} {g : Fault} (h : expect k g ts = .error f) : f.left = ts := by
  unfold expect at h
  split at h
  · split at h <;> cases h
    rfl
  · cases h
    rfl

theorem expect_cases {β : Type} {k : TokenKind} {g : Fault}
    {next : Token × List Token → Except Failure β}
    (h : (expect k g ts).bind next = .error f) :
    ts = f.left ∨ ∃ t rest, ts = t :: rest ∧ t.kind = k ∧ next (t, rest) = .error f := by
  rcases error_of_bind h with he | ⟨⟨t, rest⟩, he, h⟩
  · exact .inl (expect_eq_error he).symm
  · obtain ⟨hs, hk⟩ := expect_eq_ok he
    exact .inr ⟨t, rest, hs, hk, h⟩

theorem reads_of_readMarks_error {spaced : Bool} (h : readMarks spaced ts = .error f) :
    ∃ us, ∃ ms : List Mark, ts = us ++ f.left ∧ Reads (ms.map fun m => .key m.kind) us ∧
      ms.countP Mark.isSpace + spaced.toNat ≤ 1 := by
  induction ts generalizing spaced with
  | nil => cases h
  | cons t ts ih =>
    rw [readMarks] at h
    split at h
    · next q hq =>
      obtain ⟨us, ms, hs, hu, hc⟩ := ih (error_of_map h)
      exact ⟨t :: us, .qualifier q :: ms, congrArg (t :: ·) hs, .cons hq hu, hc⟩
    · next s hs =>
      split at h
      · cases h
        exact ⟨[], [], rfl, .nil, by cases spaced <;> decide⟩
      · next hsp =>
        obtain ⟨us, ms, hs', hu, hc⟩ := ih (error_of_map h)
        refine ⟨t :: us, .space s :: ms, congrArg (t :: ·) hs', .cons hs hu, ?_⟩
        rw [List.countP_cons_of_pos rfl, eq_false_of_ne_true hsp]
        exact hc
    · cases h

theorem readBase_eq_error (h : readBase ts = .error f) : f.left = ts := by
  unfold readBase at h
  repeat' split at h
  all_goals cases h
  all_goals rfl

theorem reads_of_readPointer_error (h : readPointer ts = .error f) :
    ∃ us qs, ts = us ++ f.left ∧ Reads (pointerSymbols (some qs)) us := by
  unfold readPointer at h
  split at h
  · next t ts =>
    split at h
    · next hk =>
      split at h <;> cases h
      obtain ⟨us, hs, hu⟩ := reads_of_readQualifiers ts
      exact ⟨t :: us, _, congrArg (t :: ·) hs, .cons hk hu⟩
    · cases h
  · cases h

theorem completable_of_readParameter (h : readParameter ts = .error f) :
    ∃ us p, ts = us ++ f.left ∧ Parameter.Legal p ∧ Completable p.symbols us := by
  have hint : Reads [.word "int".toList, .word "x".toList] (tokenize "int x".toList) := by
    decide +kernel
  have hname : Reads [.word "x".toList] (tokenize "x".toList) := by decide +kernel
  rcases error_of_bind h with hm | ⟨⟨marks, marked⟩, hm, e₁⟩
  · obtain ⟨us, ms, hs, hu, hc⟩ := reads_of_readMarks_error hm
    exact ⟨us, ⟨ms, .named "int".toList, [], none, "x".toList⟩, hs, ⟨nofun, hc⟩, _, hu.append hint⟩
  obtain ⟨us₁, rfl, h₁, hc⟩ := reads_of_readMarks hm
  rcases error_of_bind e₁ with hb | ⟨⟨base, based⟩, hb, e₂⟩
  · obtain rfl := readBase_eq_error hb
    exact ⟨us₁, ⟨marks, .named "int".toList, [], none, "x".toList⟩, rfl, ⟨nofun, hc⟩, _,
      h₁.append hint⟩
  obtain ⟨us₂, rfl, h₂, hl⟩ := reads_of_readBase hb
  obtain ⟨us₃, hs₃, h₃⟩ := reads_of_readQualifiers based
  -- From the base type on only a name is needed, with or without a pointer.
  have hnamed : ∀ {us₄ pointer}, (readQualifiers based).2 = us₄ ++ f.left →
      Reads (pointerSymbols pointer) us₄ → ∃ us p, us₁ ++ (us₂ ++ based) = us ++ f.left ∧
        Parameter.Legal p ∧ Completable p.symbols us := by
    intro us₄ pointer hs₄ h₄
    refine ⟨us₁ ++ (us₂ ++ (us₃ ++ us₄)), ⟨marks, base, (readQualifiers based).1, pointer, "x".toList⟩,
      ?_, ⟨hl, hc⟩, "x".toList, ?_⟩
    · rw [hs₃, hs₄]
      simp only [List.append_assoc]
    · simp only [List.append_assoc]
      exact h₁.append (h₂.append (h₃.append (h₄.append hname)))
  rcases error_of_bind e₂ with hp | ⟨⟨pointer, pointed⟩, hp, e₃⟩
  · obtain ⟨us₄, qs, hs₄, h₄⟩ := reads_of_readPointer_error hp
    exact hnamed hs₄ h₄
  · obtain ⟨us₄, hs₄, h₄⟩ := reads_of_readPointer hp
    rcases error_of_bind e₃ with he | ⟨⟨t, rest⟩, he, e₄⟩
    · obtain rfl := expect_eq_error he
      exact hnamed hs₄ h₄
    · cases e₄

theorem completable_of_readParameters (h : readParameters ts = .error f) :
    ∃ us ps, ts = us ++ f.left ∧ ps ≠ [] ∧ (∀ p ∈ ps, Parameter.Legal p) ∧
      Completable (parameterSymbols ps) us := by
  fun_induction readParameters ts with
  | case1 ts e he =>
    cases h
    obtain ⟨us, p, hs, hp, hu⟩ := completable_of_readParameter he
    exact ⟨us, [p], hs, List.cons_ne_nil _ _, fun q hq => List.mem_singleton.1 hq ▸ hp, hu⟩
  | case2 ts p t rest' hp hc _ _ ih =>
    obtain ⟨hl, us, rfl, hu⟩ := reads_of_readParameter hp
    obtain ⟨vs, ps, hs, hne, hls, hv⟩ := ih (error_of_map h)
    obtain ⟨q, qs, rfl⟩ := List.exists_cons_of_ne_nil hne
    have hcomma : Completable (.key .comma :: parameterSymbols (q :: qs)) (t :: vs) := by
      obtain ⟨z, hz⟩ := hv
      exact ⟨z, .cons hc hz⟩
    refine ⟨us ++ t :: vs, p :: q :: qs, ?_, List.cons_ne_nil _ _, List.forall_mem_cons.2 ⟨hl, hls⟩,
      hu.append_completable hcomma⟩
    rw [hs, List.append_assoc, List.cons_append]
  | case3 ts p t rest' hp hc => cases h
  | case4 ts p hp => cases h

theorem readParameters_of_readParameterList (h : readParameterList ts = .error f) :
    readParameters ts = .error f := by
  unfold readParameterList at h
  repeat' split at h
  all_goals first | exact h | cases h

theorem symbols_of_ne_nil {name : List Char} {ps : List Parameter} (h : ps ≠ []) (void : Bool) :
    DeclaredKernel.symbols ⟨name, ps⟩ void =
      [.key .kernel, .key .void, .word name, .key .openParen] ++
        (parameterSymbols ps ++ [.key .closeParen]) := by
  simp [DeclaredKernel.symbols, h]

theorem completable_of_readDeclaration (h : readDeclaration ts = .error f) :
    ∃ us d void, ts = us ++ f.left ∧ (∀ p ∈ d.parameters, Parameter.Legal p) ∧
      Completable (DeclaredKernel.symbols d void) us := by
  rcases expect_cases h with hs | ⟨t₁, ts₁, rfl, k₁, h⟩
  · exact ⟨[], ⟨"k".toList, []⟩, false, hs, nofun, "kernel void k()".toList, by decide +kernel⟩
  rcases expect_cases h with rfl | ⟨t₂, ts₂, rfl, k₂, h⟩
  · have hrest : Reads [.key .void, .word "k".toList, .key .openParen, .key .closeParen]
        (tokenize "void k()".toList) := by decide +kernel
    exact ⟨[t₁], ⟨"k".toList, []⟩, false, rfl, nofun, _, .cons k₁ hrest⟩
  rcases expect_cases h with rfl | ⟨t₃, ts₃, rfl, k₃, h⟩
  · have hrest : Reads [.word "k".toList, .key .openParen, .key .closeParen]
        (tokenize "k()".toList) := by decide +kernel
    exact ⟨[t₁, t₂], ⟨"k".toList, []⟩, false, rfl, nofun, _, .cons k₁ (.cons k₂ hrest)⟩
  rcases expect_cases h with rfl | ⟨t₄, ts₄, rfl, k₄, h⟩
  · have hrest : Reads [.key .openParen, .key .closeParen] (tokenize "()".toList) := by
      decide +kernel
    exact ⟨[t₁, t₂, t₃], ⟨t₃.text, []⟩, false, rfl, nofun, _,
      .cons k₁ (.cons k₂ (.cons ⟨k₃, rfl⟩ hrest))⟩
  have hopen : Reads [.key .kernel, .key .void, .word t₃.text, .key .openParen] [t₁, t₂, t₃, t₄] :=
    .cons k₁ (.cons k₂ (.cons ⟨k₃, rfl⟩ (.cons k₄ .nil)))
  rcases error_of_bind h with h₅ | ⟨⟨ps, ts₅⟩, h₅, hclosed⟩
  · obtain ⟨us, ps, rfl, hne, hl, hu⟩ :=
      completable_of_readParameters (readParameters_of_readParameterList h₅)
    refine ⟨t₁ :: t₂ :: t₃ :: t₄ :: us, ⟨t₃.text, ps⟩, false, rfl, hl, ?_⟩
    rw [symbols_of_ne_nil hne]
    exact hopen.append_completable hu.append_closeParen
  · obtain ⟨hl, void, us, rfl, hu⟩ := reads_of_readParameterList h₅
    rcases expect_cases hclosed with rfl | ⟨t₆, ts₆, rfl, k₆, hread⟩
    · have hclose : Completable [.key .closeParen] [] := ⟨")".toList, by decide +kernel⟩
      refine ⟨t₁ :: t₂ :: t₃ :: t₄ :: us, ⟨t₃.text, ps⟩, void, rfl, hl, ?_⟩
      have hlist := hopen.append_completable (hu.append_completable hclose)
      rwa [List.append_nil] at hlist
    · cases hread

end Completions

end KernelWrap.Declaration
