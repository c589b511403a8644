import KernelWrap.Proofs.Lines
import Mathlib.Data.List.Forall2

/-! Lines that are read alike. No reader of declarations takes a token of a kind that no declaration
has, so reading depends on the tokens up to the first such token only; and where the tokens stand
decides about the column of an error and about nothing else. Each reader is followed on two token
lists side by side. -/

namespace KernelWrap.Declaration
open Text

/-- The tokens are the same but for their places, up to the first one that is unknown. -/
inductive Agree : List Token → List Token → Prop
  | nil : Agree [] []
  | cons {t t' : Token} {ts ts' : List Token} : t.lexeme = t'.lexeme → Agree ts ts' →
      Agree (t :: ts) (t' :: ts')
  | stop {t t' : Token} {ts ts' : List Token} : t.lexeme = t'.lexeme → t.kind = .unknown →
      Agree (t :: ts) (t' :: ts')

/-- Two readings with related results, or with the same fault, that leave tokens which agree. -/
inductive Parallel {α : Type} (R : α → α → Prop) : Reading α → Reading α → Prop
  | ok {a a' : α} {ts ts' : List Token} : R a a' → Agree ts ts' →
      Parallel R (.ok (a, ts)) (.ok (a', ts'))
  | error {f : Fault} {ts ts' : List Token} : Agree ts ts' →
      Parallel R (.error ⟨f, ts⟩) (.error ⟨f, ts'⟩)

section Parallel

variable {α β : Type} {R : α → α → Prop} {S : β → β → Prop}
  {x x' : Except Failure (α × List Token)}

theorem Parallel.bind {f f' : α × List Token → Except Failure (β × List Token)}
    (h : Parallel R x x')
    (hf : ∀ a a' ts ts', R a a' → Agree ts ts' → Parallel S (f (a, ts)) (f' (a', ts'))) :
    Parallel S (x.bind f) (x'.bind f') := by
  cases h with
  | ok hr ha => exact hf _ _ _ _ hr ha
  | error ha => exact .error ha

theorem Parallel.map (h : Parallel R x x') {g : α → β} (hg : ∀ a a', R a a' → S (g a) (g a')) :
    Parallel S (x.map fun p => (g p.1, p.2)) (x'.map fun p => (g p.1, p.2)) := by
  cases h with
  | ok hr ha => exact .ok (hg _ _ hr) ha
  | error ha => exact .error ha

end Parallel

theorem kind_of_lexeme {t t' : Token} (h : t.lexeme = t'.lexeme) : t'.kind = t.kind :=
  congrArg Lexeme.kind h.symm

theorem text_of_lexeme {t t' : Token} (h : t.lexeme = t'.lexeme) : t'.text = t.text :=
  congrArg Lexeme.text h.symm

namespace Agree

variable {ts ts' : List Token}

section Parts

theorem expect (h : Agree ts ts') {k : TokenKind} (hk : k ≠ .unknown) (f : Fault) :
    Parallel (fun t t' => t.lexeme = t'.lexeme) (expect k f ts) (Declaration.expect k f ts') := by
  cases h with
  | nil => exact .error .nil
  | @cons t t' ts ts' hl hr =>
    simp only [Declaration.expect, kind_of_lexeme hl]
    by_cases ht : t.kind = k
    · simp only [ht, if_true]
      exact .ok hl hr
    · simp only [ht, if_false]
      exact .error (.cons hl hr)
  | @stop t t' ts ts' hl hu =>
    simp only [Declaration.expect, kind_of_lexeme hl, hu, hk.symm, if_false]
    exact .error (.stop hl hu)

theorem readMarks (h : Agree ts ts') (spaced : Bool) :
    Parallel Eq (readMarks spaced ts) (Declaration.readMarks spaced ts') := by
  induction h generalizing spaced with
  | nil => exact .ok rfl .nil
  | @cons t t' ts ts' hl hr ih =>
    simp only [Declaration.readMarks, kind_of_lexeme hl]
    split
    · exact (ih spaced).map fun _ _ e => congrArg _ e
    · split
      · exact .error (.cons hl hr)
      · exact (ih true).map fun _ _ e => congrArg _ e
    · exact .ok rfl (.cons hl hr)
  | @stop t t' ts ts' hl hu =>
    simp only [Declaration.readMarks, kind_of_lexeme hl, hu]
    exact .ok rfl (.stop hl hu)

theorem readQualifiers (h : Agree ts ts') :
    (readQualifiers ts).1 = (Declaration.readQualifiers ts').1 ∧
      Agree (Declaration.readQualifiers ts).2 (Declaration.readQualifiers ts').2 := by
  induction h with
  | nil => exact ⟨rfl, .nil⟩
  | @cons t t' ts ts' hl hr ih =>
    simp only [Declaration.readQualifiers, kind_of_lexeme hl]
    split
    · exact ⟨congrArg (_ :: ·) ih.1, ih.2⟩
    · exact ⟨rfl, .cons hl hr⟩
  | @stop t t' ts ts' hl hu =>
    simp only [Declaration.readQualifiers, kind_of_lexeme hl, hu]
    exact ⟨trivial, .stop hl hu⟩

theorem endsParameter (h : Agree ts ts') : endsParameter ts' = Declaration.endsParameter ts := by
  cases h with
  | nil => rfl
  | cons hl _ => simp only [Declaration.endsParameter, kind_of_lexeme hl]
  | stop hl _ => simp only [Declaration.endsParameter, kind_of_lexeme hl]

theorem startsAtStar (h : Agree ts ts') : startsAtStar ts' = Declaration.startsAtStar ts := by
  cases h with
  | nil => rfl
  | cons hl _ => simp only [Declaration.startsAtStar, kind_of_lexeme hl]
  | stop hl _ => simp only [Declaration.startsAtStar, kind_of_lexeme hl]

theorem readBase (h : Agree ts ts') : Parallel Eq (readBase ts) (Declaration.readBase ts') := by
  cases h with
  | nil => exact .error .nil
  | @stop t t' ts ts' hl hu =>
    simp only [Declaration.readBase, kind_of_lexeme hl, hu]
    exact .error (.stop hl hu)
  | @cons t t' ts ts' hl hr =>
    simp only [Declaration.readBase, kind_of_lexeme hl, text_of_lexeme hl]
    split
    · exact .ok rfl hr
    · exact .ok rfl hr
    · -- Whether the word behind `unsigned` is a length word is seen at the token behind it.
      cases hr with
      | nil => exact .ok rfl .nil
      | @stop w w' us us' hl' hu =>
        simp only [kind_of_lexeme hl', hu, reduceCtorEq, false_and, if_false]
        exact .ok rfl (.stop hl' hu)
      | @cons w w' us us' hl' hr' =>
        simp only [kind_of_lexeme hl', text_of_lexeme hl', hr'.endsParameter]
        split
        · exact .ok rfl hr'
        · exact .ok rfl (.cons hl' hr')
    · exact .error (.cons hl hr)

theorem readPointer (h : Agree ts ts') :
    Parallel Eq (readPointer ts) (Declaration.readPointer ts') := by
  cases h with
  | nil => exact .ok rfl .nil
  | @stop t t' ts ts' hl hu =>
    simp only [Declaration.readPointer, kind_of_lexeme hl, hu, reduceCtorEq, if_false]
    exact .ok rfl (.stop hl hu)
  | @cons t t' ts ts' hl hr =>
    obtain ⟨hq, hrest⟩ := hr.readQualifiers
    simp only [Declaration.readPointer, kind_of_lexeme hl, hrest.startsAtStar, hq]
    split
    · split
      · exact .error hrest
      · exact .ok rfl hrest
    · exact .ok rfl (.cons hl hr)

theorem readParameter (h : Agree ts ts') :
    Parallel Eq (readParameter ts) (Declaration.readParameter ts') := by
  refine (h.readMarks false).bind ?_
  rintro marks _ ts ts' rfl h
  refine h.readBase.bind ?_
  rintro base _ ts ts' rfl h
  obtain ⟨hq, h⟩ := h.readQualifiers
  dsimp only
  rw [hq]
  refine h.readPointer.bind ?_
  rintro pointer _ ts ts' rfl h
  refine (h.expect (by decide) _).bind ?_
  rintro name name' ts ts' hn h
  refine .ok ?_ h
  rw [text_of_lexeme hn]

end Parts

section Lists

theorem readParameters_eq (ts : List Token) : Declaration.readParameters ts =
    match Declaration.readParameter ts with
    | .error e => .error e
    | .ok (p, t :: rest) =>
      if t.kind = .comma then (Declaration.readParameters rest).map fun q => (p :: q.1, q.2)
      else .ok ([p], t :: rest)
    | .ok (p, []) => .ok ([p], []) := by
  conv =>
    lhs
    rw [Declaration.readParameters]
  split
  · next e he => rw [he]
  · split
    · next he => rw [he]
    · next he => rw [he]

theorem readParameters (h : Agree ts ts') :
    Parallel Eq (readParameters ts) (Declaration.readParameters ts') := by
  induction hn : ts.length using Nat.strongRecOn generalizing ts ts' with
  | _ n ih =>
    have hp := h.readParameter
    have hlen : ∀ p rest, Declaration.readParameter ts = .ok (p, rest) → rest.length < n :=
      fun p rest he => hn ▸ length_of_readParameter he
    rw [readParameters_eq, readParameters_eq]
    generalize Declaration.readParameter ts = x at hp hlen ⊢
    generalize Declaration.readParameter ts' = x' at hp ⊢
    cases hp with
    | error ha => exact .error ha
    | @ok p p' us us' hpp ha =>
      subst hpp
      cases ha with
      | nil => exact .ok rfl .nil
      | @stop t t' us us' hl hu =>
        simp only [kind_of_lexeme hl, hu, reduceCtorEq, if_false]
        exact .ok rfl (.stop hl hu)
      | @cons t t' us us' hl hr =>
        have hlt := hlen p (t :: us) rfl
        rw [List.length_cons] at hlt
        simp only [kind_of_lexeme hl]
        split
        · have hlater := ih us.length (by omega) hr rfl
          exact hlater.map fun _ _ e => congrArg (p :: ·) e
        · exact .ok rfl (.cons hl hr)

theorem readParameterList (h : Agree ts ts') :
    Parallel Eq (readParameterList ts) (Declaration.readParameterList ts') := by
  have hp := h.readParameters
  cases h with
  | nil => exact hp
  | @stop t t' ts ts' hl hu =>
    simp only [Declaration.readParameterList, kind_of_lexeme hl, hu, reduceCtorEq, false_and, if_false]
    cases ts <;> cases ts' <;> exact hp
  | @cons t t' ts ts' hl hr =>
    simp only [Declaration.readParameterList, kind_of_lexeme hl]
    split
    · exact .ok rfl (.cons hl hr)
    · cases hr with
      | nil => exact hp
      | @stop w w' us us' hl' hu =>
        simp only [kind_of_lexeme hl', hu, reduceCtorEq, and_false, if_false]
        exact hp
      | @cons w w' us us' hl' hr' =>
        simp only [kind_of_lexeme hl']
        split
        · exact .ok rfl (.cons hl' hr')
        · exact hp

theorem readDeclaration (h : Agree ts ts') :
    Parallel Eq (readDeclaration ts) (Declaration.readDeclaration ts') := by
  refine (h.expect (by decide) _).bind ?_
  rintro - - ts ts' - h
  refine (h.expect (by decide) _).bind ?_
  rintro - - ts ts' - h
  refine (h.expect (by decide) _).bind ?_
  rintro name name' ts ts' hn h
  refine (h.expect (by decide) _).bind ?_
  rintro - - ts ts' - h
  refine h.readParameterList.bind ?_
  rintro parameters _ ts ts' rfl h
  refine (h.expect (by decide) _).bind ?_
  rintro - - ts ts' - h
  refine .ok ?_ h
  rw [text_of_lexeme hn]

end Lists

end Agree

def ParseError.report (e : ParseError) : Nat × String := (e.line, e.message)

/-- Two lines that are read alike, on whatever line of a text. -/
def Alike (l l' : List Char) : Prop :=
  ∀ n, (readLine l n).mapError ParseError.report = (readLine l' n).mapError ParseError.report

section Lines

theorem Agree.report {us us' ts ts' : List Token} (h : Agree us us') (n : Nat) (f : Fault) :
    (ParseError.ofFailure n ts ⟨f, us⟩).report = (ParseError.ofFailure n ts' ⟨f, us'⟩).report := by
  cases h with
  | nil => rfl
  | cons hl _ => simp only [ParseError.ofFailure, text_of_lexeme hl, ParseError.report, ParseError.message]
  | stop hl _ => simp only [ParseError.ofFailure, text_of_lexeme hl, ParseError.report, ParseError.message]

theorem Agree.nil_or_cons {ts ts' : List Token} (h : Agree ts ts') :
    (ts = [] ∧ ts' = []) ∨ ∃ t us t' us', ts = t :: us ∧ ts' = t' :: us' := by
  cases h with
  | nil => exact .inl ⟨rfl, rfl⟩
  | cons _ _ => exact .inr ⟨_, _, _, _, rfl, rfl⟩
  | stop _ _ => exact .inr ⟨_, _, _, _, rfl, rfl⟩

theorem alike_of_agree {l l' : List Char}
    (h : Agree (fromKernel (tokenize l)) (fromKernel (tokenize l'))) : Alike l l' := by
  intro n
  have hd := h.readDeclaration
  unfold readLine readTokens
  rcases h.nil_or_cons with ⟨e, e'⟩ | ⟨t, us, t', us', e, e'⟩
  · rw [e, e']
  · rw [e, e'] at hd ⊢
    dsimp only
    generalize readDeclaration (t :: us) = x at hd ⊢
    generalize readDeclaration (t' :: us') = x' at hd ⊢
    cases hd with
    | ok he _ => rw [he]
    | error ha => exact congrArg Except.error (ha.report n _)

theorem agree_of_lexemes {ts ts' : List Token} (h : ts.map Token.lexeme = ts'.map Token.lexeme) :
    Agree ts ts' := by
  induction ts generalizing ts' with
  | nil =>
    obtain rfl := List.map_eq_nil_iff.1 h.symm
    exact .nil
  | cons t ts ih =>
    obtain ⟨t', us, rfl, ht, hs⟩ := List.map_eq_cons_iff.1 h.symm
    exact .cons ht.symm (ih hs.symm)

theorem agree_append_stop (us : List Token) {t t' : Token} (h : t.lexeme = t'.lexeme)
    (hu : t.kind = .unknown) (vs vs' : List Token) : Agree (us ++ t :: vs) (us ++ t' :: vs') := by
  induction us with
  | nil => exact .stop h hu
  | cons u us ih => exact .cons rfl ih

theorem Alike.refl (l : List Char) : Alike l l := fun _ => rfl

theorem alike_of_kernelFree {v v' m : List Char} (hv : KernelFree v) (hv' : KernelFree v')
    (h : Apart v m) (h' : Apart v' m) : Alike (v ++ m) (v' ++ m) := by
  have hfrom : ∀ {u}, KernelFree u → Apart u m →
      fromKernel (tokenize (u ++ m)) = fromKernel (tokenizeFrom (0 + byteSize u) m) := by
    intro u hu ha
    rw [tokenize, tokenizeFrom_append ha, fromKernel, List.dropWhile_append_of_pos]
    · rfl
    · exact fun t ht => bne_iff_ne.2 (hu t.lexeme (List.mem_map_of_mem ht))
  have hmap : ∀ ts : List Token, (fromKernel ts).map Token.lexeme =
      (ts.map Token.lexeme).dropWhile fun l => l.kind != .kernel := by
    intro ts
    rw [List.dropWhile_map]
    rfl
  refine alike_of_agree (agree_of_lexemes ?_)
  rw [hfrom hv h, hfrom hv' h', hmap, hmap, map_lexeme_tokenizeFrom _ (0 + byteSize v')]

theorem alike_of_unknown {u r r' : List Char} {c : Char} (hu : ¬ KernelFree u)
    (hg : isGap c = false) (hi : isIdentChar c = false) (hc : symbolKind c = .unknown) :
    Alike (u ++ c :: r) (u ++ c :: r') := by
  have hfrom : ∀ s, fromKernel (tokenize (u ++ c :: s)) = fromKernel (tokenize u) ++
      ⟨symbolKind c, [c], 0 + byteSize u⟩ :: tokenizeFrom (0 + byteSize u + c.utf8Size) s := by
    intro s
    have ha : Apart u (c :: s) := apart_of_head fun d hd => by cases hd; exact hi
    have hne : (fromKernel (tokenize u)).isEmpty = false := by
      rw [List.isEmpty_eq_false_iff]
      exact mt fromKernel_eq_nil_iff.1 hu
    rw [fromKernel] at hne
    rw [tokenize, tokenizeFrom_append ha, tokenizeFrom_symbol hg hi, fromKernel,
      List.dropWhile_append]
    exact if_neg (by rw [tokenize] at hne; simp [hne])
  refine alike_of_agree ?_
  rw [hfrom, hfrom]
  exact agree_append_stop _ rfl hc _ _

theorem matchLines_alike {ls ls' : List (List Char)} (h : List.Forall₂ Alike ls ls') (line : Nat) :
    (matchLines line ls).kernels = (matchLines line ls').kernels ∧
      (matchLines line ls).skipped.map ParseError.report =
        (matchLines line ls').skipped.map ParseError.report := by
  induction h generalizing line with
  | nil => exact ⟨rfl, rfl⟩
  | @cons l l' ls ls' hl _ ih =>
    obtain ⟨hk, hs⟩ := ih (line + 1)
    have hr := hl line
    rw [matchLines, matchLines]
    generalize readLine l line = r at hr
    generalize readLine l' line = r' at hr
    cases r with
    | error e =>
      cases r' with
      | error e' => exact ⟨hk, congrArg₂ List.cons (Except.error.inj hr) hs⟩
      | ok k => cases hr
    | ok k =>
      cases r' with
      | error e' => cases hr
      | ok k' =>
        obtain rfl : k = k' := Except.ok.inj hr
        cases k with
        | none => exact ⟨hk, hs⟩
        | some g => exact ⟨congrArg (g :: ·) hk, hs⟩

end Lines

end KernelWrap.Declaration
