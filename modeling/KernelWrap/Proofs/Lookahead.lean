import KernelWrap.Proofs.Agreement
import KernelWrap.Proofs.Completions

/-! How far readers look. A reader that fails at a token has not looked behind it, and neither has one
that leaves the token: it does the same whatever follows. The base type is the exception, since a
length word behind `unsigned` is left when it ends the parameter; but then it is the name, and the
parameter takes it. -/

namespace KernelWrap.Declaration

def leftOf {α : Type} : Except Failure (α × List Token) → List Token
  | .ok (_, rest) => rest
  | .error f => f.left

/-- Two readings of lists that are the same up to a token `t` and differ behind it. As long as the
first one has left `t` and what is behind it, the second one has done the same. -/
inductive SameUpTo (t : Token) (rest more : List Token) {α : Type} :
    Except Failure (α × List Token) → Except Failure (α × List Token) → Prop
  | past {x y : Except Failure (α × List Token)} (h : (leftOf x).length ≤ rest.length) :
      SameUpTo t rest more x y
  | ok (a : α) (v : List Token) :
      SameUpTo t rest more (.ok (a, v ++ t :: rest)) (.ok (a, v ++ t :: more))
  | error (g : Fault) (v : List Token) :
      SameUpTo t rest more (.error ⟨g, v ++ t :: rest⟩) (.error ⟨g, v ++ t :: more⟩)

section Left

variable {α β : Type} {ts : List Token}

theorem leftOf_map {x : Except Failure (α × List Token)} {g : α → β} :
    leftOf (x.map fun p => (g p.1, p.2)) = leftOf x := by
  cases x <;> rfl

theorem leftOf_bind_le {x : Except Failure (α × List Token)}
    {g : α × List Token → Except Failure (β × List Token)}
    (hg : ∀ p, (leftOf (g p)).length ≤ p.2.length) :
    (leftOf (x >>= g)).length ≤ (leftOf x).length := by
  cases x with
  | error e => exact Nat.le_refl _
  | ok p => exact hg p

theorem leftOf_le {x : Except Failure (α × List Token)}
    (he : ∀ f, x = .error f → ∃ us, ts = us ++ f.left)
    (hok : ∀ p, x = .ok p → p.2.length ≤ ts.length) : (leftOf x).length ≤ ts.length := by
  cases hx : x with
  | ok p => exact hok p hx
  | error f =>
    obtain ⟨us, rfl⟩ := he f hx
    exact (List.suffix_append us f.left).length_le

theorem leftOf_expect_le (k : TokenKind) (g : Fault) (ts : List Token) :
    (leftOf (expect k g ts)).length ≤ ts.length :=
  leftOf_le (fun _ h => ⟨[], (expect_eq_error h).symm⟩) fun _ h => Nat.le_of_lt (length_of_expect h)

theorem leftOf_readMarks_le (spaced : Bool) (ts : List Token) :
    (leftOf (readMarks spaced ts)).length ≤ ts.length := by
  refine leftOf_le (fun f h => ?_) fun p h => length_of_readMarks h
  obtain ⟨us, ms, hs, -⟩ := reads_of_readMarks_error h
  exact ⟨us, hs⟩

theorem leftOf_readBase_le (ts : List Token) : (leftOf (readBase ts)).length ≤ ts.length :=
  leftOf_le (fun _ h => ⟨[], (readBase_eq_error h).symm⟩) fun _ h => length_of_readBase h

theorem leftOf_readPointer_le (ts : List Token) : (leftOf (readPointer ts)).length ≤ ts.length := by
  refine leftOf_le (fun f h => ?_) fun p h => length_of_readPointer h
  obtain ⟨us, qs, hs, -⟩ := reads_of_readPointer_error h
  exact ⟨us, hs⟩

theorem leftOf_readParameters_le (ts : List Token) :
    (leftOf (readParameters ts)).length ≤ ts.length := by
  refine leftOf_le (fun f h => ?_) fun p h => ?_
  · obtain ⟨us, ps, hs, -⟩ := completable_of_readParameters h
    exact ⟨us, hs⟩
  · obtain ⟨-, -, us, rfl, -⟩ := reads_of_readParameters h
    exact (List.suffix_append us p.2).length_le

theorem leftOf_readParameterList_le (ts : List Token) :
    (leftOf (readParameterList ts)).length ≤ ts.length := by
  refine leftOf_le (fun f h => ?_) fun p h => ?_
  · obtain ⟨us, ps, hs, -⟩ := completable_of_readParameters (readParameters_of_readParameterList h)
    exact ⟨us, hs⟩
  · obtain ⟨-, -, us, rfl, -⟩ := reads_of_readParameterList h
    exact (List.suffix_append us p.2).length_le

end Left

def readDeclarator (marks : List Mark) (base : BaseType) (p : List TypeQualifier × List Token) :
    Except Failure (Parameter × List Token) := do
  let (pointer, ts) ← readPointer p.2
  let (name, ts) ← expect .word .noParameterName ts
  return (⟨marks, base, p.1, pointer, name.text⟩, ts)

theorem readParameter_eq (ts : List Token) : readParameter ts = (do
    let p ← readMarks false ts
    let q ← readBase p.2
    readDeclarator p.1 q.1 (readQualifiers q.2)) := rfl

theorem leftOf_readDeclarator_le (marks : List Mark) (base : BaseType)
    (p : List TypeQualifier × List Token) :
    (leftOf (readDeclarator marks base p)).length ≤ p.2.length := by
  have hname : ∀ q : Option (List TypeQualifier) × List Token,
      (leftOf (expect .word .noParameterName q.2)).length ≤ q.2.length := fun q =>
    leftOf_expect_le _ _ _
  exact (leftOf_bind_le fun q => (leftOf_bind_le fun r => Nat.le_refl _).trans (hname q)).trans
    (leftOf_readPointer_le p.2)

theorem leftOf_readParameters_le_readParameter (ts : List Token) :
    (leftOf (readParameters ts)).length ≤ (leftOf (readParameter ts)).length := by
  rw [Agree.readParameters_eq]
  cases readParameter ts with
  | error f => exact Nat.le_refl _
  | ok p =>
    obtain ⟨p, rest⟩ := p
    cases rest with
    | nil => exact Nat.le_refl _
    | cons t rest =>
      simp only
      split
      · rw [leftOf_map]
        exact (leftOf_readParameters_le rest).trans (Nat.le_succ _)
      · exact Nat.le_refl _

theorem leftOf_readParameters_void {t : Token} (h : t.kind = .void) (rest : List Token) :
    (leftOf (readParameters (t :: rest))).length ≤ rest.length := by
  have hmarks : readMarks false (t :: rest) = .ok ([], t :: rest) := by rw [readMarks, h]
  have hbase : readBase (t :: rest) = .ok (.void, rest) := by simp only [readBase, h]
  refine (leftOf_readParameters_le_readParameter _).trans ?_
  rw [readParameter_eq, hmarks]
  show (leftOf (readBase (t :: rest) >>= _)).length ≤ rest.length
  rw [hbase]
  exact (leftOf_readDeclarator_le [] .void _).trans (length_readQualifiers_le rest)

def readBody (name : Token) (ts : List Token) : Except Failure (DeclaredKernel × List Token) := do
  let (parameters, ts) ← readParameterList ts
  let (_, ts) ← expect .closeParen .noSeparator ts
  return (⟨name.text, parameters⟩, ts)

def readNamed (ts : List Token) : Except Failure (DeclaredKernel × List Token) := do
  let (name, ts) ← expect .word .noName ts
  let (_, ts) ← expect .openParen .noOpen ts
  readBody name ts

theorem readDeclaration_eq (ts : List Token) : readDeclaration ts = (do
    let p ← expect .kernel .noKernel ts
    let q ← expect .void .noVoid p.2
    readNamed q.2) := rfl

theorem leftOf_readBody_le (name : Token) (ts : List Token) :
    (leftOf (readBody name ts)).length ≤ ts.length := by
  have hclose : ∀ q : List Parameter × List Token,
      (leftOf (expect .closeParen .noSeparator q.2)).length ≤ q.2.length := fun q =>
    leftOf_expect_le _ _ _
  exact (leftOf_bind_le fun q => (leftOf_bind_le fun r => Nat.le_refl _).trans (hclose q)).trans
    (leftOf_readParameterList_le ts)

theorem leftOf_readNamed_le (ts : List Token) : (leftOf (readNamed ts)).length ≤ ts.length := by
  have hopen : ∀ q : Token × List Token,
      (leftOf (expect .openParen .noOpen q.2)).length ≤ q.2.length := fun q =>
    leftOf_expect_le _ _ _
  exact (leftOf_bind_le fun q =>
    (leftOf_bind_le fun r => leftOf_readBody_le q.1 r.2).trans (hopen q)).trans
      (leftOf_expect_le _ _ ts)

namespace SameUpTo

variable {t : Token} {rest more : List Token} {α β : Type}

theorem map {x y : Except Failure (α × List Token)} (h : SameUpTo t rest more x y) (g : α → β) :
    SameUpTo t rest more (x.map fun p => (g p.1, p.2)) (y.map fun p => (g p.1, p.2)) := by
  cases h with
  | past h => exact .past (by rwa [leftOf_map])
  | ok a v => exact .ok (g a) v
  | error g v => exact .error g v

theorem bind {x y : Except Failure (α × List Token)}
    {f g : α × List Token → Except Failure (β × List Token)} (h : SameUpTo t rest more x y)
    (hf : ∀ p, (leftOf (f p)).length ≤ p.2.length)
    (hg : ∀ a v, x = .ok (a, v ++ t :: rest) →
      SameUpTo t rest more (f (a, v ++ t :: rest)) (g (a, v ++ t :: more))) :
    SameUpTo t rest more (x >>= f) (y >>= g) := by
  cases h with
  | past h => exact .past ((leftOf_bind_le hf).trans h)
  | ok a v => exact hg a v rfl
  | error g v => exact .error g v

theorem eq_of_error {g : Fault} {y : Except Failure (α × List Token)}
    (h : SameUpTo t rest more (.error ⟨g, t :: rest⟩) y) : y = .error ⟨g, t :: more⟩ := by
  generalize hx : Except.error (Failure.mk g (t :: rest)) = x at h
  cases h with
  | past h =>
    subst hx
    exact absurd h (Nat.not_succ_le_self _)
  | ok a v => cases hx
  | error g' v =>
    obtain ⟨rfl, hv⟩ := Failure.mk.inj (Except.error.inj hx)
    obtain rfl := List.self_eq_append_left.1 hv
    rfl

variable (t rest more)

theorem expect (k : TokenKind) (g : Fault) (u : List Token) :
    SameUpTo t rest more (expect k g (u ++ t :: rest)) (expect k g (u ++ t :: more)) := by
  cases u with
  | nil =>
    simp only [List.nil_append, Declaration.expect]
    split
    · exact .past (Nat.le_refl _)
    · exact .error g []
  | cons a u =>
    simp only [List.cons_append, Declaration.expect]
    split
    · exact .ok a u
    · exact .error g (a :: u)

theorem readMarks (spaced : Bool) (u : List Token) : SameUpTo t rest more
    (readMarks spaced (u ++ t :: rest)) (readMarks spaced (u ++ t :: more)) := by
  induction u generalizing spaced with
  | nil =>
    simp only [List.nil_append, Declaration.readMarks]
    split
    · refine .past ?_
      rw [leftOf_map]
      exact leftOf_readMarks_le spaced rest
    · split
      · exact .error .secondSpace []
      · refine .past ?_
        rw [leftOf_map]
        exact leftOf_readMarks_le true rest
    · exact .ok [] []
  | cons a u ih =>
    simp only [List.cons_append, Declaration.readMarks]
    split
    · next q hq => exact (ih spaced).map (.qualifier q :: ·)
    · next s hs =>
      split
      · exact .error .secondSpace (a :: u)
      · exact (ih true).map (.space s :: ·)
    · exact .ok [] (a :: u)

theorem readQualifiers (u : List Token) : SameUpTo t rest more
    (.ok (readQualifiers (u ++ t :: rest))) (.ok (readQualifiers (u ++ t :: more))) := by
  induction u with
  | nil =>
    simp only [List.nil_append, Declaration.readQualifiers]
    split
    · exact .past (length_readQualifiers_le rest)
    · exact .ok [] []
  | cons a u ih =>
    simp only [List.cons_append, Declaration.readQualifiers]
    split
    · next q hq => exact ih.map (q :: ·)
    · exact .ok [] (a :: u)

theorem startsAtStar_append (v : List Token) :
    startsAtStar (v ++ t :: rest) = startsAtStar (v ++ t :: more) := by
  cases v <;> rfl

theorem readPointer (u : List Token) : SameUpTo t rest more
    (readPointer (u ++ t :: rest)) (readPointer (u ++ t :: more)) := by
  cases u with
  | nil =>
    simp only [List.nil_append, Declaration.readPointer]
    split
    · refine .past ?_
      split <;> exact length_readQualifiers_le rest
    · exact .ok none []
  | cons a u =>
    simp only [List.cons_append, Declaration.readPointer]
    split
    · have hq := readQualifiers t rest more u
      generalize Declaration.readQualifiers (u ++ t :: rest) = x at hq ⊢
      generalize Declaration.readQualifiers (u ++ t :: more) = y at hq ⊢
      cases hq with
      | past h =>
        refine .past ?_
        split <;> exact h
      | ok qs v =>
        simp only [startsAtStar_append t rest more v]
        split
        · exact .error .secondStar v
        · exact .ok (some qs) v
    · exact .ok none (a :: u)

theorem readBase_nil : SameUpTo t rest more (readBase (t :: rest)) (readBase (t :: more)) := by
  simp only [Declaration.readBase]
  split
  · exact .past (Nat.le_refl _)
  · exact .past (Nat.le_refl _)
  · refine .past ?_
    split
    · split
      · simp [leftOf]
      · simp [leftOf]
    · simp [leftOf]
  · exact .error .noType []

theorem readBase_singleton (a : Token) : SameUpTo t rest more
    (readBase (a :: t :: rest)) (readBase (a :: t :: more)) ∨
      (t.kind = .word ∧ ∃ b, Declaration.readBase (a :: t :: rest) = .ok (b, t :: rest)) := by
  simp only [Declaration.readBase]
  split
  · exact .inl (.ok _ [])
  · exact .inl (.ok _ [])
  · by_cases hw : t.kind = .word
    · by_cases hl : t.text ∈ lengthWords ∧ endsParameter rest = false
      · refine .inl (.past ?_)
        simp [hw, hl, leftOf]
      · refine .inr ⟨hw, .unsigned none, ?_⟩
        simp [hw, hl]
    · simp only [hw, false_and, if_false]
      exact .inl (.ok _ [])
  · exact .inl (.error .noType [a])

theorem readBase_cons_cons (a b : Token) (u : List Token) : SameUpTo t rest more
    (readBase (a :: b :: (u ++ t :: rest))) (readBase (a :: b :: (u ++ t :: more))) := by
  have he : endsParameter (u ++ t :: rest) = endsParameter (u ++ t :: more) := by
    cases u <;> rfl
  simp only [Declaration.readBase, he]
  split
  · exact .ok _ (b :: u)
  · exact .ok _ (b :: u)
  · split
    · exact .ok _ u
    · exact .ok _ (b :: u)
  · exact .error .noType (a :: b :: u)

/-- A base type looks one token further than it takes, but only behind the word that is a length or
else the name of the parameter. -/
theorem readBase (u : List Token) : SameUpTo t rest more
    (readBase (u ++ t :: rest)) (readBase (u ++ t :: more)) ∨
      (t.kind = .word ∧ ∃ b, Declaration.readBase (u ++ t :: rest) = .ok (b, t :: rest)) :=
  match u with
  | [] => .inl (readBase_nil t rest more)
  | [a] => readBase_singleton t rest more a
  | a :: b :: u => .inl (readBase_cons_cons t rest more a b u)

theorem readDeclarator (marks : List Mark) (base : BaseType) (qs : List TypeQualifier)
    (v : List Token) : SameUpTo t rest more (readDeclarator marks base (qs, v ++ t :: rest))
      (readDeclarator marks base (qs, v ++ t :: more)) := by
  refine (readPointer t rest more v).bind (fun p => ?_) fun pointer w _ => ?_
  · exact (leftOf_bind_le fun q => Nat.le_refl _).trans (leftOf_expect_le _ _ _)
  · refine (expect t rest more .word .noParameterName w).bind (fun q => Nat.le_refl _) ?_
    exact fun name w _ => .ok _ w

theorem readParameter (u : List Token) : SameUpTo t rest more
    (readParameter (u ++ t :: rest)) (readParameter (u ++ t :: more)) := by
  rw [readParameter_eq, readParameter_eq]
  have hbehind : ∀ marks (p : BaseType × List Token), (leftOf (Declaration.readDeclarator marks p.1
      (Declaration.readQualifiers p.2))).length ≤ p.2.length := fun marks p =>
    (leftOf_readDeclarator_le marks p.1 _).trans (length_readQualifiers_le p.2)
  refine (readMarks t rest more false u).bind (fun p => ?_) fun marks v _ => ?_
  · exact (leftOf_bind_le (hbehind p.1)).trans (leftOf_readBase_le p.2)
  rcases readBase t rest more v with hbase | ⟨hk, b, hb⟩
  · refine hbase.bind (hbehind marks) fun base w _ => ?_
    exact (readQualifiers t rest more w).bind (leftOf_readDeclarator_le marks base)
      fun qs x _ => readDeclarator t rest more marks base qs x
  · -- The word behind `unsigned` is the name, which is taken.
    have hq : Declaration.readQualifiers (t :: rest) = ([], t :: rest) := by
      rw [Declaration.readQualifiers, hk]
    have hp : Declaration.readPointer (t :: rest) = .ok (none, t :: rest) := by
      simp only [Declaration.readPointer, hk, reduceCtorEq, if_false]
    have hname : Declaration.readDeclarator marks b (Declaration.readQualifiers (t :: rest)) =
        .ok (⟨marks, b, [], none, t.text⟩, rest) := by
      simp only [hq, Declaration.readDeclarator, hp, Bind.bind, Except.bind, pure, Except.pure,
        expect_of_kind hk .noParameterName rest]
    refine .past ?_
    show (leftOf (Declaration.readBase (v ++ t :: rest) >>= _)).length ≤ rest.length
    rw [hb]
    exact Nat.le_of_eq (congrArg (List.length ∘ leftOf) hname)

theorem readParameters (u : List Token) : SameUpTo t rest more
    (readParameters (u ++ t :: rest)) (readParameters (u ++ t :: more)) := by
  induction hn : u.length using Nat.strongRecOn generalizing u with
  | _ n ih =>
    have hp := readParameter t rest more u
    have hle := leftOf_readParameters_le_readParameter (u ++ t :: rest)
    rw [Agree.readParameters_eq] at hle
    rw [Agree.readParameters_eq, Agree.readParameters_eq]
    have hlen : ∀ p v, Declaration.readParameter (u ++ t :: rest) = .ok (p, v ++ t :: rest) →
        v.length < n := by
      intro p v he
      have hlt := length_of_readParameter he
      simp only [List.length_append, List.length_cons] at hlt
      omega
    generalize Declaration.readParameter (u ++ t :: rest) = x at hp hlen hle ⊢
    generalize Declaration.readParameter (u ++ t :: more) = y at hp ⊢
    cases hp with
    | past h => exact .past (hle.trans h)
    | error g v => exact .error g v
    | ok p v =>
      cases v with
      | nil =>
        simp only [List.nil_append]
        split
        · refine .past ?_
          rw [leftOf_map]
          exact leftOf_readParameters_le rest
        · exact .ok [p] []
      | cons a v =>
        have hlt := hlen p (a :: v) rfl
        simp only [List.cons_append]
        split
        · exact (ih v.length (by rw [List.length_cons] at hlt; omega) v rfl).map (p :: ·)
        · exact .ok [p] (a :: v)

theorem readParameterList (u : List Token) : SameUpTo t rest more
    (readParameterList (u ++ t :: rest)) (readParameterList (u ++ t :: more)) := by
  have hp := readParameters t rest more u
  match u with
  | [] =>
    simp only [List.nil_append, Declaration.readParameterList] at hp ⊢
    split
    · exact .ok [] []
    · by_cases hv : t.kind = .void
      · refine .past ?_
        have hle := leftOf_readParameters_void hv rest
        split
        · split
          · exact Nat.le_refl _
          · exact hle
        · exact hle
      · simp only [hv, false_and, if_false]
        cases rest <;> cases more <;> exact hp
  | [a] =>
    simp only [List.cons_append, List.nil_append, Declaration.readParameterList] at hp ⊢
    split
    · exact .ok [] [a]
    · split
      · exact .ok [] []
      · exact hp
  | a :: b :: u =>
    simp only [List.cons_append, Declaration.readParameterList] at hp ⊢
    split
    · exact .ok [] (a :: b :: u)
    · split
      · exact .ok [] (b :: u)
      · exact hp

theorem readBody (name : Token) (u : List Token) : SameUpTo t rest more
    (readBody name (u ++ t :: rest)) (readBody name (u ++ t :: more)) := by
  refine (readParameterList t rest more u).bind (fun p => ?_) fun ps v _ => ?_
  · exact (leftOf_bind_le fun q => Nat.le_refl _).trans (leftOf_expect_le _ _ _)
  · refine (expect t rest more .closeParen .noSeparator v).bind (fun q => Nat.le_refl _) ?_
    exact fun _ w _ => .ok _ w

theorem readNamed (u : List Token) : SameUpTo t rest more
    (readNamed (u ++ t :: rest)) (readNamed (u ++ t :: more)) := by
  refine (expect t rest more .word .noName u).bind (fun p => ?_) fun name v _ => ?_
  · exact (leftOf_bind_le fun q => leftOf_readBody_le p.1 q.2).trans (leftOf_expect_le _ _ _)
  · exact (expect t rest more .openParen .noOpen v).bind (fun q => leftOf_readBody_le name q.2)
      fun _ w _ => readBody t rest more name w

theorem readDeclaration (u : List Token) : SameUpTo t rest more
    (readDeclaration (u ++ t :: rest)) (readDeclaration (u ++ t :: more)) := by
  rw [readDeclaration_eq, readDeclaration_eq]
  refine (expect t rest more .kernel .noKernel u).bind (fun p => ?_) fun _ v _ => ?_
  · exact (leftOf_bind_le fun q => leftOf_readNamed_le q.2).trans (leftOf_expect_le _ _ _)
  · exact (expect t rest more .void .noVoid v).bind (fun q => leftOf_readNamed_le q.2)
      fun _ w _ => readNamed t rest more w

end SameUpTo

end KernelWrap.Declaration
